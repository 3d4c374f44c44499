import FosKernel.Refinement.PageReleaseProgress

/-! # Moves of the page file

The functions on the page file take pages of the kernel heap for directories and disk page
tables, write words, and give tables and directories back. A call is a sequence of such
moves.
-/

namespace FosKernel

def DirectorySlot.env : DirectorySlot → Nat
  | .pages env => env
  | .tables env => env

def DiskSlot.env : DiskSlot → Nat
  | .page env _ => env
  | .table env _ => env

namespace PageTrace

open Kernel

section Records

variable {ghost : Ghost} {start state final : State}

/-- The loop of `kfree` keeps the newest match. -/
theorem exists_newest (test : Nat → Bool) {count index : Nat} (below : index < count)
    (passes : test index = true) :
    ∃ newest, index ≤ newest ∧ newest < count ∧ test newest = true ∧
      (List.range count).reverse.find? test = some newest := by
  induction count with
  | zero => exact absurd below (Nat.not_lt_zero _)
  | succ count induction =>
      rw [List.range_succ, List.reverse_append, List.reverse_singleton, List.singleton_append]
      by_cases last : test count = true
      · exact ⟨count, Nat.lt_succ_iff.mp below, Nat.lt_succ_self count, last,
          List.find?_cons_of_pos last⟩
      · have earlier : index < count := by
          rcases Nat.lt_succ_iff_lt_or_eq.mp below with less | same
          · exact less
          · rw [same] at passes
            exact absurd passes last
        rcases induction earlier with ⟨newest, above, less, own, found⟩
        refine ⟨newest, above, Nat.lt_succ_of_lt less, own, ?_⟩
        rw [List.find?_cons_of_neg last]
        exact found

/-- A block that starts at the address was recorded after the start. -/
def Recorded (start state : State) (address : Nat) : Prop :=
  ∃ index, start.idx ≤ index ∧ index < state.idx ∧ (state.kHeapArr index).first = address

/-- The blocks recorded after the start have one page. -/
structure SingleSince (start state : State) : Prop where
  later : start.idx ≤ state.idx
  single : ∀ index, start.idx ≤ index → index < state.idx →
    (state.kHeapArr index).last = (state.kHeapArr index).first

theorem Recorded.newest {address : Nat} (recorded : Recorded start state address)
    (since : SingleSince start state) : NewestSingle state address := by
  rcases recorded with ⟨index, after, below, first⟩
  rcases exists_newest (fun index => (state.kHeapArr index).first = address) below
    (decide_eq_true first) with ⟨newest, above, bound, own, found⟩
  replace own := of_decide_eq_true own
  refine ⟨state.kHeapArr newest, ?_, ?_⟩
  · rw [findHeapRecord, found]
    rfl
  · rw [since.single newest (after.trans above) bound, own]

/-- A block of one page is recorded. -/
structure RecordAdded (state : State) (address : Nat) (final : State) : Prop where
  idx : final.idx = state.idx + 1
  first : (final.kHeapArr state.idx).first = address
  last : (final.kHeapArr state.idx).last = address
  others : ∀ index, index ≠ state.idx → final.kHeapArr index = state.kHeapArr index

theorem kmalloc_record {address : Nat} (consistent : Consistent ghost state.view)
    (returned : kmalloc 4096 state = .ok (address, final)) (nonzero : address ≠ 0) :
    RecordAdded state address final := by
  have request : Request 4096 := ⟨by decide, by decide⟩
  rcases kmalloc_ok consistent request returned with
    ⟨zero, -⟩ | ⟨record, after, rfl, allocation⟩
  · exact absurd zero nonzero
  · rcases allocation.scanned with ⟨place, scanned⟩
    have single : roundUp 4096 / 4096 = 1 := rfl
    have last : record.last = record.first := by
      rw [scanned.last, scanned.first, single]
      rfl
    constructor
    · exact allocation.idx
    · rw [allocation.records, Function.update_self]
    · rw [allocation.records, Function.update_self, last]
    · intro index different
      rw [allocation.records, Function.update_of_ne different]

theorem SingleSince.add {address : Nat} (since : SingleSince start state)
    (added : RecordAdded state address final) : SingleSince start final where
  later := by
    rw [added.idx]
    exact since.later.trans (Nat.le_succ _)
  single := by
    intro index after below
    by_cases own : index = state.idx
    · rw [own, added.first, added.last]
    · rw [added.others index own]
      rw [added.idx] at below
      exact since.single index after (by omega)

theorem Recorded.add {address other : Nat} (recorded : Recorded start state other)
    (added : RecordAdded state address final) : Recorded start final other := by
  rcases recorded with ⟨index, after, below, first⟩
  refine ⟨index, after, by rw [added.idx]; omega, ?_⟩
  rw [added.others index (Nat.ne_of_lt below)]
  exact first

theorem RecordAdded.recorded {address : Nat} (added : RecordAdded state address final)
    (since : SingleSince start state) : Recorded start final address :=
  ⟨state.idx, since.later, by rw [added.idx]; omega, added.first⟩

end Records

section Pages

variable {ghost after : Ghost} {state grown final : State} {free : List Nat}
variable {env address frame index : Nat} {slot : DirectorySlot}

/-- A page of the kernel heap that the environment has for one of its directories or for
one of its disk page tables. -/
inductive Occupied (state : State) (env page : Nat) : Prop
  | directory (slot : DirectorySlot) (own : slot.env = env)
      (present : state.directoryAddress slot ≠ 0)
      (here : page = ppn (state.directoryAddress slot))
  | table (index : Nat) (present : state.diskDirectory env index ≠ 0)
      (here : frameOf (state.view.entry (.heap page)) = frameOf (state.diskDirectory env index))

/-! ## New pages of the kernel heap -/

/-- The environment takes a page of the kernel heap. -/
structure Taken (ghost : Ghost) (state : State) (env frame address : Nat) (after : Ghost)
    (grown final : State) : Prop where
  new : NewHeapPage ghost state frame address after grown
  record : RecordAdded state address grown
  entry : final.view.entry = grown.view.entry
  idx : final.idx = grown.idx
  kHeapArr : final.kHeapArr = grown.kHeapArr
  same : SameFile state final
  occupied : Occupied final env (ppn address)
  kept : ∀ page, state.view.entry (.heap page) ≠ 0 → Occupied state env page →
    Occupied final env page
  directories : ∀ slot, final.directoryAddress slot ≠ 0 →
    final.directoryAddress slot = address ∨
      state.directoryAddress slot ≠ 0 ∧
        final.directoryAddress slot = state.directoryAddress slot
  tables : ∀ someEnv index, final.diskDirectory someEnv index ≠ 0 →
    frameOf (final.diskDirectory someEnv index) = frame ∨
      state.diskDirectory someEnv index ≠ 0 ∧
        final.diskDirectory someEnv index = state.diskDirectory someEnv index

namespace Taken

theorem entry_own (taken : Taken ghost state env frame address after grown final)
    (consistent : Consistent ghost state.view) :
    final.view.entry (.heap (ppn address)) ≠ 0 ∧
      frameOf (final.view.entry (.heap (ppn address))) = frame := by
  rw [taken.entry, taken.new.handed.entry, frameOf_heapEntry (taken.new.bound consistent)]
  exact ⟨ne_zero_of_present (present_heapEntry frame), rfl⟩

theorem entry_other (taken : Taken ghost state env frame address after grown final) {page : Nat}
    (other : page ≠ ppn address) :
    final.view.entry (.heap page) = state.view.entry (.heap page) := by
  rw [taken.entry]
  exact taken.new.growth.entries _ (by simpa using other)

/-- The new page alone maps the new frame. -/
theorem page_of_frame (taken : Taken ghost state env frame address after grown final)
    (orderly : Orderly ghost free state) {page : Nat}
    (mapped : final.view.entry (.heap page) ≠ 0)
    (same : frameOf (final.view.entry (.heap page)) = frame) : page = ppn address := by
  by_contra other
  rw [taken.entry_other other] at mapped same
  have held : Slot.heap page ∈ ghost.holders frame :=
    orderly.consistent.mem_holders.mpr ⟨orderly.visible page, mapped, same⟩
  rw [taken.new.handed.unheld] at held
  exact Finset.notMem_empty _ held

end Taken

/-- A mapped page is not the new one. -/
theorem entry_grown (new : NewHeapPage ghost state frame address after grown) {page : Nat}
    (mapped : state.view.entry (.heap page) ≠ 0) :
    grown.view.entry (.heap page) = state.view.entry (.heap page) := by
  have other : page ≠ ppn address := by
    intro same
    rw [same] at mapped
    exact mapped (new.growth.wasFree (ppn address) (by simp))
  exact new.growth.entries _ (by simpa using other)

theorem Taken.ofDirectory (orderly : Orderly ghost free state) (own : slot.env = env)
    (absent : state.directoryAddress slot = 0)
    (allocated : kmalloc 4096 state = .ok (address, grown)) (nonzero : address ≠ 0) :
    ∃ frame after,
      Taken ghost state env frame address after grown (grown.setDirectoryAddress slot address) ∧
      Orderly after free (grown.setDirectoryAddress slot address) := by
  rcases kmalloc_page orderly.consistent allocated nonzero with ⟨frame, after, new⟩
  have absentNow : grown.directoryAddress slot = 0 := by
    rw [new.only.directoryAddress]
    exact absent
  have kept := new.directory orderly.consistent orderly.file absentNow
  have view := grown.view_setDirectoryAddress slot address
  have addresses : ∀ other, (grown.setDirectoryAddress slot address).directoryAddress other =
      if other = slot then address else state.directoryAddress other := by
    intro other
    rw [State.directoryAddress_set, new.only.directoryAddress]
  have pages : (grown.setDirectoryAddress slot address).diskDirectory = state.diskDirectory := by
    rcases grown.setDirectoryAddress_only slot address with ⟨envs, only⟩
    rw [only]
    rcases new.only with ⟨_, _, _, _, _, _, _, rfl⟩
    rfl
  refine ⟨frame, after, ?_, orderly.step kept.step kept.file⟩
  constructor
  · exact new
  · exact kmalloc_record orderly.consistent allocated nonzero
  · rw [view]
  · rcases grown.setDirectoryAddress_only slot address with ⟨envs, only⟩
    rw [only]
  · rcases grown.setDirectoryAddress_only slot address with ⟨envs, only⟩
    rw [only]
  · exact kept.same
  · refine .directory slot own ?_ ?_
    · rw [addresses, if_pos rfl]
      exact nonzero
    · rw [addresses, if_pos rfl]
  · intro page mapped occupied
    cases occupied with
    | directory other mine present here =>
        have different : other ≠ slot := by
          rintro rfl
          exact present absent
        refine .directory other mine ?_ ?_
        · rw [addresses, if_neg different]
          exact present
        · rw [addresses, if_neg different]
          exact here
    | table index present here =>
        refine .table index ?_ ?_
        · rw [pages]
          exact present
        · rw [pages, view, entry_grown new mapped, here]
  · intro other present
    rw [addresses] at present ⊢
    by_cases here : other = slot
    · rw [if_pos here]
      exact .inl rfl
    · rw [if_neg here] at present ⊢
      exact .inr ⟨present, rfl⟩
  · intro someEnv index present
    rw [pages] at present ⊢
    exact .inr ⟨present, rfl⟩

theorem Taken.ofTable (orderly : Orderly ghost free state) {table : Nat}
    (user : index < pdx userTop) (directory : (state.envs env).diskEnvPgdir ≠ 0)
    (absent : state.diskDirectory env index = 0)
    (allocated : kmalloc 4096 state = .ok (table, grown)) (nonzero : table ≠ 0)
    (new : NewHeapPage ghost state frame table after grown) :
    Taken ghost state env frame table after grown
        (grown.newDiskTable env index frame (diskTableWord frame)) ∧
      Orderly after free (grown.newDiskTable env index frame (diskTableWord frame)) := by
  have directoryNow : (grown.envs env).diskEnvPgdir ≠ 0 := by rwa [new.only.envs]
  have pages : grown.diskDirectory = state.diskDirectory := by
    rcases new.only with ⟨_, _, _, _, _, _, _, rfl⟩
    rfl
  have absentNow : grown.diskDirectory env index = 0 := by rwa [pages]
  have kept := new.diskTable orderly.consistent orderly.file user directoryNow absentNow
  have fresh := new.fresh orderly.consistent
  have view : (grown.newDiskTable env index frame (diskTableWord frame)).view =
      grown.view.setTable (.disk env index) (diskTableWord frame) :=
    State.view_newDiskTable fun owner index => fresh (.page owner index)
  have entry : (grown.newDiskTable env index frame (diskTableWord frame)).view.entry =
      grown.view.entry := by
    rw [view]
    rfl
  have refers : frameOf (diskTableWord frame) = frame :=
    frameOf_constructEntry (new.bound orderly.consistent) (by decide)
  have own := State.newDiskTable_directory grown env index frame (diskTableWord frame)
  have others : ∀ someEnv other, ¬(someEnv = env ∧ other = index) →
      (grown.newDiskTable env index frame (diskTableWord frame)).diskDirectory someEnv other =
        state.diskDirectory someEnv other := by
    intro someEnv other different
    rw [State.newDiskTable_others _ _ _ different, pages]
  have addresses : (grown.newDiskTable env index frame (diskTableWord frame)).directoryAddress =
      state.directoryAddress := new.only.directoryAddress
  refine ⟨?_, orderly.step kept.step kept.file⟩
  constructor
  · exact new
  · exact kmalloc_record orderly.consistent allocated nonzero
  · exact entry
  · rfl
  · rfl
  · exact kept.same
  · refine .table index ?_ ?_
    · rw [own]
      exact ne_zero_of_present (present_diskTableWord frame)
    · rw [own, refers, entry, new.handed.entry, frameOf_heapEntry (new.bound orderly.consistent)]
  · intro page mapped occupied
    cases occupied with
    | directory slot mine present here =>
        rw [← addresses] at present here
        exact .directory slot mine present here
    | table other present here =>
        have different : ¬(env = env ∧ other = index) := by
          rintro ⟨-, rfl⟩
          exact present absent
        refine .table other ?_ ?_
        · rw [others env other different]
          exact present
        · rw [others env other different, entry, entry_grown new mapped, here]
  · intro slot present
    rw [addresses] at present ⊢
    exact .inr ⟨present, rfl⟩
  · intro someEnv other present
    by_cases here : someEnv = env ∧ other = index
    · rw [here.1, here.2, own, refers]
      exact .inl rfl
    · rw [others someEnv other here] at present ⊢
      exact .inr ⟨present, rfl⟩

end Pages

/-! ## Moves -/

/-- A move of an environment. -/
inductive Move (env : Nat) (ghost : Ghost) (free : List Nat) (state : State) :
    Ghost → List Nat → State → Prop
  | take (step : Taken ghost state env frame address after grown final) :
      Move env ghost free state after free final
  | write (step : WordStep state final)
      (words : ∀ cell : DiskSlot, cell.env ≠ env → final.diskWord cell = state.diskWord cell) :
      Move env ghost free state ghost left final
  | freeTable (present : state.diskDirectory env index ≠ 0)
      (freed : TableFreed ghost state env index address after left final) :
      Move env ghost free state after left final
  | freeDirectory (own : slot.env = env) (freed : DirectoryFreed ghost state slot after final) :
      Move env ghost free state after free final

/-- Moves of an environment one after the other. -/
inductive Moves (env : Nat) (ghost : Ghost) (free : List Nat) (state : State) :
    Ghost → List Nat → State → Prop
  | refl : Moves env ghost free state ghost free state
  | tail (before : Moves env ghost free state middle rest between)
      (move : Move env middle rest between after left final)
      (orderly : Orderly after left final) : Moves env ghost free state after left final

section Moves

variable {ghost middle after : Ghost} {start state between grown final : State}
variable {free rest left : List Nat} {env address frame index : Nat} {slot : DirectorySlot}

namespace Moves

theorem single (move : Move env ghost free state after left final)
    (orderly : Orderly after left final) : Moves env ghost free state after left final :=
  .tail .refl move orderly

theorem trans (first : Moves env ghost free state middle rest between)
    (second : Moves env middle rest between after left final) :
    Moves env ghost free state after left final := by
  induction second with
  | refl => exact first
  | tail _ move orderly induction => exact .tail induction move orderly

theorem orderly (moves : Moves env ghost free state after left final)
    (before : Orderly ghost free state) : Orderly after left final := by
  cases moves with
  | refl => exact before
  | tail _ _ later => exact later

/-- What every move keeps. -/
theorem keep {holds : Ghost → List Nat → State → Prop}
    (kept : ∀ {ghost free state after left final}, Orderly ghost free state →
      holds ghost free state → Move env ghost free state after left final →
        holds after left final)
    (moves : Moves env ghost free state after left final) (before : Orderly ghost free state)
    (start : holds ghost free state) : holds after left final := by
  induction moves with
  | refl => exact start
  | tail earlier move _ induction => exact kept (earlier.orderly before) induction move

end Moves

/-! ## Records of blocks -/

/-- The blocks of some environments were recorded after the start. -/
structure Documented (mine : Nat → Prop) (start state : State) : Prop where
  since : SingleSince start state
  directories : ∀ slot : DirectorySlot, mine slot.env → state.directoryAddress slot ≠ 0 →
    Recorded start state (state.directoryAddress slot)
  tables : ∀ env, mine env → ∀ index, state.diskDirectory env index ≠ 0 → ∀ address,
    HeapAddress address → state.view.entry (.heap (ppn address)) ≠ 0 →
    frameOf (state.view.entry (.heap (ppn address))) = frameOf (state.diskDirectory env index) →
      Recorded start state address

variable {mine : Nat → Prop}

theorem HeapAddress.eq_of_ppn {left right : Nat} (leftHeap : HeapAddress left)
    (rightHeap : HeapAddress right) (same : ppn left = ppn right) : left = right := by
  have leftAligned := leftHeap.aligned
  have rightAligned := rightHeap.aligned
  simp only [ppn] at same
  omega

theorem Recorded.congr {address : Nat} (recorded : Recorded start state address)
    (idx : final.idx = state.idx) (kHeapArr : final.kHeapArr = state.kHeapArr) :
    Recorded start final address := by
  rw [Recorded, idx, kHeapArr]
  exact recorded

theorem SingleSince.congr (since : SingleSince start state) (idx : final.idx = state.idx)
    (kHeapArr : final.kHeapArr = state.kHeapArr) : SingleSince start final := by
  constructor
  · rw [idx]
    exact since.later
  · rw [idx, kHeapArr]
    exact since.single

namespace Documented

theorem newest_table (documented : Documented mine start state)
    (orderly : Orderly ghost free state) (own : mine env)
    (present : state.diskDirectory env index ≠ 0) (heap : HeapAddress address)
    (held : ghost.holders (frameOf (state.diskDirectory env index)) = {.heap (ppn address)}) :
    NewestSingle state address := by
  have member : Slot.heap (ppn address) ∈
      ghost.holders (frameOf (state.diskDirectory env index)) := by
    rw [held]
    exact Finset.mem_singleton_self _
  rcases orderly.consistent.mem_holders.mp member with ⟨-, mapped, same⟩
  exact (documented.tables env own index present address heap mapped same).newest
    documented.since

theorem newest_directory (documented : Documented mine start state) (own : mine slot.env)
    (present : state.directoryAddress slot ≠ 0) :
    NewestSingle state (state.directoryAddress slot) :=
  (documented.directories slot own present).newest documented.since

theorem take (documented : Documented mine start state) (orderly : Orderly ghost free state)
    (taken : Taken ghost state env frame address after grown final) :
    Documented mine start final := by
  have fresh : Recorded start final address :=
    (taken.record.recorded documented.since).congr taken.idx taken.kHeapArr
  have still : ∀ other, Recorded start state other → Recorded start final other :=
    fun other before => (before.add taken.record).congr taken.idx taken.kHeapArr
  constructor
  · exact (documented.since.add taken.record).congr taken.idx taken.kHeapArr
  · intro slot own present
    rcases taken.directories slot present with here | ⟨before, same⟩
    · rw [here]
      exact fresh
    · rw [same]
      exact still _ (documented.directories slot own before)
  · intro someEnv own index present other heap mapped same
    by_cases here : ppn other = ppn address
    · rw [HeapAddress.eq_of_ppn heap taken.new.heap here]
      exact fresh
    · rcases taken.tables someEnv index present with frame | ⟨before, kept⟩
      · exact absurd (taken.page_of_frame orderly mapped (same.trans frame)) here
      · rw [taken.entry_other here] at mapped same
        rw [kept] at same
        exact still _ (documented.tables someEnv own index before other heap mapped same)

/-- Nothing is recorded when pages of the heap are given back. -/
theorem shrink (documented : Documented mine start state) {page : Nat} {view : View}
    (shrink : HeapShrink ghost view [page] after final.view)
    (entries : view.entry = state.view.entry) (idx : final.idx = state.idx)
    (kHeapArr : final.kHeapArr = state.kHeapArr)
    (directories : ∀ slot, final.directoryAddress slot ≠ 0 →
      final.directoryAddress slot = state.directoryAddress slot)
    (tables : ∀ env index, final.diskDirectory env index ≠ 0 →
      final.diskDirectory env index = state.diskDirectory env index) :
    Documented mine start final := by
  constructor
  · exact documented.since.congr idx kHeapArr
  · intro slot own present
    have same := directories slot present
    rw [same] at present ⊢
    exact (documented.directories slot own present).congr idx kHeapArr
  · intro env own index present address heap mapped refers
    have other : ppn address ≠ page := by
      rintro rfl
      exact mapped (shrink.cleared _ (List.mem_singleton_self _))
    rw [shrink.entries _ (by simpa using other), entries] at mapped refers
    have same := tables env index present
    rw [same] at present refers
    exact (documented.tables env own index present address heap mapped refers).congr idx kHeapArr

theorem move (documented : Documented mine start state) (orderly : Orderly ghost free state)
    (move : Move env ghost free state after left final) : Documented mine start final := by
  cases move with
  | take taken => exact documented.take orderly taken
  | write step words =>
      constructor
      · exact documented.since.congr step.idx step.kHeapArr
      · rw [step.directoryAddress]
        exact fun slot own present =>
          (documented.directories slot own present).congr step.idx step.kHeapArr
      · rw [step.diskDirectory, step.view]
        exact fun env own index present address heap mapped same =>
          (documented.tables env own index present address heap mapped same).congr step.idx
            step.kHeapArr
  | freeTable present freed =>
      refine documented.shrink freed.shrink rfl freed.idx freed.kHeapArr ?_ ?_
      · intro slot _
        exact freed.directoryAddress slot
      · intro someEnv index there
        rw [freed.directory] at there ⊢
        split at there
        · exact absurd rfl there
        · next other => exact if_neg other
  | freeDirectory own freed =>
      refine documented.shrink freed.shrink rfl freed.idx freed.kHeapArr ?_ ?_
      · intro slot there
        rw [freed.directories] at there ⊢
        split at there
        · exact absurd rfl there
        · next other => exact if_neg other
      · intro someEnv index _
        rw [freed.diskDirectory]

theorem moves (documented : Documented mine start state) (orderly : Orderly ghost free state)
    (moves : Moves env ghost free state after left final) : Documented mine start final :=
  Moves.keep (fun before holds step => Documented.move holds before step) moves orderly
    documented

end Documented

end Moves

end PageTrace

end FosKernel
