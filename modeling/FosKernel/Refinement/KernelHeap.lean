import FosKernel.Refinement.HeapScan

/-! # The kernel heap

`kmalloc` takes frames off the free list and enters each at one heap page; `kfree`
clears the entries again. Nothing else changes.
-/

namespace FosKernel

/-- The parts of the state that mapping and unmapping of heap pages works on. -/
def MapOnly (state final : State) : Prop :=
  ∃ framesInfo frameLinks freeFrameList bootTables,
    final = { state with framesInfo, frameLinks, freeFrameList, bootTables }

theorem MapOnly.refl (state : State) : MapOnly state state := ⟨_, _, _, _, rfl⟩

theorem MapOnly.trans {state middle final : State} (first : MapOnly state middle)
    (second : MapOnly middle final) : MapOnly state final := by
  rcases first with ⟨_, _, _, _, rfl⟩
  rcases second with ⟨_, _, _, _, rfl⟩
  exact ⟨_, _, _, _, rfl⟩

theorem MapOnly.layout {state final : State} (only : MapOnly state final)
    (layout : HeapLayout state.view) : HeapLayout final.view := by
  rcases only with ⟨_, _, _, _, rfl⟩
  exact { layout with }

/-- The parts of the state that the kernel heap works on. -/
def HeapOnly (state final : State) : Prop :=
  ∃ framesInfo frameLinks freeFrameList bootTables startAdd idx kHeapArr,
    final = { state with
      framesInfo, frameLinks, freeFrameList, bootTables, startAdd, idx, kHeapArr }

namespace HeapOnly

variable {state middle final : State}

theorem refl (state : State) : HeapOnly state state := ⟨_, _, _, _, _, _, _, rfl⟩

theorem trans (first : HeapOnly state middle) (second : HeapOnly middle final) :
    HeapOnly state final := by
  rcases first with ⟨_, _, _, _, _, _, _, rfl⟩
  rcases second with ⟨_, _, _, _, _, _, _, rfl⟩
  exact ⟨_, _, _, _, _, _, _, rfl⟩

variable (only : HeapOnly state final)

include only

theorem memory : final.memory = state.memory := by
  rcases only with ⟨_, _, _, _, _, _, _, rfl⟩
  rfl

theorem pageDirectory : final.pageDirectory = state.pageDirectory := by
  rcases only with ⟨_, _, _, _, _, _, _, rfl⟩
  rfl

theorem envs : final.envs = state.envs := by
  rcases only with ⟨_, _, _, _, _, _, _, rfl⟩
  rfl

theorem table : final.view.table = state.view.table := by
  rcases only with ⟨_, _, _, _, _, _, _, rfl⟩
  rfl

theorem userEntry (owner : Directory) (page : Nat) :
    final.view.entry (.user owner page) = state.view.entry (.user owner page) := by
  rcases only with ⟨_, _, _, _, _, _, _, rfl⟩
  rfl

theorem workingSet : final.view.workingSet = state.view.workingSet := by
  rcases only with ⟨_, _, _, _, _, _, _, rfl⟩
  rfl

end HeapOnly

/-! ## Mapping -/

/-- The entry of an allocated heap page. -/
abbrev heapEntry (frame : Nat) : Word :=
  constructEntry frame (permPresent ||| permWriteable ||| permPresent)

/-- A frame that was handed out to a heap page. -/
structure HandedOut (ghost after : Ghost) (final : View) (frame page : Nat) : Prop where
  free : frame ∈ ghost.free
  taken : frame ∉ after.free
  unheld : ghost.holders frame = ∅
  held : after.holders frame = {.heap page}
  entry : final.entry (.heap page) = heapEntry frame

/-- Some heap pages, which were free, have got frames of the free list. -/
structure HeapGrowth (ghost : Ghost) (view : View) (pages : List Nat) (after : Ghost)
    (final : View) : Prop where
  consistent : Consistent after final
  modified : after.modified = ghost.modified
  uncounted : after.uncounted = ghost.uncounted
  managed : after.managed = ghost.managed
  active : after.active = ghost.active
  loose : after.loose = ghost.loose
  table : final.table = view.table
  workingSet : final.workingSet = view.workingSet
  subset : ∀ frame ∈ after.free, frame ∈ ghost.free
  length : after.free.length + pages.length = ghost.free.length
  wasFree : ∀ page ∈ pages, view.entry (.heap page) = 0
  handedOut : ∀ page ∈ pages, ∃ frame, HandedOut ghost after final frame page
  taken : ∀ frame ∈ ghost.free, frame ∉ after.free →
    ∃ page ∈ pages, HandedOut ghost after final frame page
  entries : ∀ slot, (∀ page ∈ pages, slot ≠ .heap page) → final.entry slot = view.entry slot
  kept : ∀ frame, frame ∉ ghost.free ∨ frame ∈ after.free →
    final.info frame = view.info frame ∧ after.holders frame = ghost.holders frame

section Growth

variable {ghost after last : Ghost} {view final lastView : View} {pages : List Nat}
variable {frame page : Nat}

theorem HandedOut.grow (handed : HandedOut ghost after final frame page)
    (rest : HeapGrowth after final pages last lastView) (fresh : page ∉ pages) :
    HandedOut ghost last lastView frame page where
  free := handed.free
  taken := fun member => handed.taken (rest.subset frame member)
  unheld := handed.unheld
  held := (rest.kept frame (.inl handed.taken)).2.trans handed.held
  entry := by
    rw [rest.entries (.heap page) fun other member equal =>
      fresh (Slot.heap.inj equal ▸ member)]
    exact handed.entry

theorem HandedOut.ofLater (handed : HandedOut after last lastView frame page)
    (one : HeapGrowth ghost view pages after final) :
    HandedOut ghost last lastView frame page where
  free := one.subset frame handed.free
  taken := handed.taken
  unheld := (one.kept frame (.inr handed.free)).2.symm.trans handed.unheld
  held := handed.held
  entry := handed.entry

namespace HeapGrowth

theorem nil (consistent : Consistent ghost view) : HeapGrowth ghost view [] ghost view where
  consistent := consistent
  modified := rfl
  uncounted := rfl
  managed := rfl
  active := rfl
  loose := rfl
  table := rfl
  workingSet := rfl
  subset _ member := member
  length := rfl
  wasFree := by simp
  handedOut := by simp
  taken := by
    intro frame member notMember
    contradiction
  entries _ _ := rfl
  kept _ _ := ⟨rfl, rfl⟩

/-- One more page. -/
theorem cons (first : HandedOut ghost after final frame page)
    (one : HeapGrowth ghost view [page] after final)
    (rest : HeapGrowth after final pages last lastView) (fresh : page ∉ pages) :
    HeapGrowth ghost view (page :: pages) last lastView where
  consistent := rest.consistent
  modified := rest.modified.trans one.modified
  uncounted := rest.uncounted.trans one.uncounted
  managed := rest.managed.trans one.managed
  active := rest.active.trans one.active
  loose := rest.loose.trans one.loose
  table := rest.table.trans one.table
  workingSet := rest.workingSet.trans one.workingSet
  subset frame member := one.subset frame (rest.subset frame member)
  length := by
    have oneLength := one.length
    have restLength := rest.length
    simp only [List.length_cons, List.length_nil] at oneLength ⊢
    omega
  wasFree := by
    intro other member
    rcases List.mem_cons.mp member with rfl | later
    · exact one.wasFree other (by simp)
    · have different : other ≠ page := fun equal => fresh (equal ▸ later)
      rw [← one.entries (.heap other) (by simpa using different)]
      exact rest.wasFree other later
  handedOut := by
    intro other member
    rcases List.mem_cons.mp member with rfl | later
    · exact ⟨frame, first.grow rest fresh⟩
    · rcases rest.handedOut other later with ⟨someFrame, handed⟩
      exact ⟨someFrame, handed.ofLater one⟩
  taken := by
    intro other member gone
    by_cases stays : other ∈ after.free
    · rcases rest.taken other stays gone with ⟨somePage, inPages, handed⟩
      exact ⟨somePage, by simp [inPages], handed.ofLater one⟩
    · rcases one.taken other member stays with ⟨somePage, inPage, handed⟩
      rw [List.mem_singleton] at inPage
      subst inPage
      exact ⟨somePage, by simp, handed.grow rest fresh⟩
  entries := by
    intro slot outside
    rw [rest.entries slot fun somePage member => outside somePage (by simp [member]),
      one.entries slot fun somePage member => outside somePage (by simp_all)]
  kept := by
    intro other condition
    have one_kept := one.kept other (condition.imp id (rest.subset other))
    have rest_kept := rest.kept other (condition.imp (mt (one.subset other)) id)
    exact ⟨rest_kept.1.trans one_kept.1, rest_kept.2.trans one_kept.2⟩

theorem setStartAdd (growth : HeapGrowth ghost view pages after final) {startAdd : Nat}
    (lower : kernelHeapStart ≤ startAdd) (upper : startAdd ≤ kernelHeapMax)
    (aligned : startAdd % 4096 = 0) :
    HeapGrowth ghost view pages after { final with startAdd } where
  consistent :=
    { toAccounting := { growth.consistent.toAccounting with }
      toPlacement := { growth.consistent.toPlacement with }
      toResidency := { growth.consistent.toResidency with }
      kernelTables := growth.consistent.kernelTables
      startLower := lower
      startUpper := upper
      startAligned := aligned }
  modified := growth.modified
  uncounted := growth.uncounted
  managed := growth.managed
  active := growth.active
  loose := growth.loose
  table := growth.table
  workingSet := growth.workingSet
  subset := growth.subset
  length := growth.length
  wasFree := growth.wasFree
  handedOut := by
    intro page member
    rcases growth.handedOut page member with ⟨frame, handed⟩
    exact ⟨frame, { handed with }⟩
  taken := by
    intro frame member gone
    rcases growth.taken frame member gone with ⟨page, inPages, handed⟩
    exact ⟨page, inPages, { handed with }⟩
  entries := growth.entries
  kept := growth.kept

theorem evolves (growth : HeapGrowth ghost view pages after final) {touched : Nat → Prop} :
    Evolves touched ghost view after final where
  consistent := growth.consistent
  managed := growth.managed
  active := growth.active
  loose := growth.loose
  kept := by
    intro frame unlisted _
    rcases growth.kept frame (.inl fun member => unlisted (.inl member)) with ⟨info, holders⟩
    refine ⟨fun now => unlisted ?_, holders, info⟩
    exact now.imp (growth.subset frame) fun member => growth.modified ▸ member
  heap := by
    intro page mapped
    refine growth.entries _ fun other member equal => mapped ?_
    rw [equal]
    exact growth.wasFree other member
  stale page hidden := growth.uncounted ▸ hidden
  window := by
    intro env page hidden
    exact ⟨growth.uncounted ▸ hidden, growth.entries _ (by simp)⟩

end HeapGrowth

end Growth

section Mapping

variable {ghost : Ghost} {state final : State} {frame address : Nat}

theorem present_heapEntry (frame : Nat) : hasPerm (heapEntry frame) permPresent = true := by
  rw [hasPerm_present, heapEntry, getLsbD_constructEntry _ _ (by decide)]
  decide

theorem frameOf_heapEntry (bound : frame < 2 ^ 20) : frameOf (heapEntry frame) = frame :=
  frameOf_constructEntry bound (by decide)

theorem heapAddress_page (heap : HeapAddress address) :
    ppn kernelHeapStart ≤ ppn address ∧ ppn address < ppn kernelHeapMax := by
  have := heap.lower
  have := heap.upper
  have := heap.aligned
  grind

theorem HeapAddress.next (heap : HeapAddress address) :
    kernelHeapStart ≤ address + 4096 ∧ address + 4096 ≤ kernelHeapMax ∧
      (address + 4096) % 4096 = 0 := by
  have := heap.lower
  have := heap.upper
  have := heap.aligned
  grind

theorem mapHeapPage_ok (consistent : Consistent ghost state.view)
    (heap : HeapAddress address) (free : state.view.entry (.heap (ppn address)) = 0)
    {nested : Nat → Kernel Nat}
    (returned : mapHeapPage nested address state = .ok ((), final)) :
    ∃ after frame, HandedOut ghost after final.view frame (ppn address) ∧
      HeapGrowth ghost state.view [ppn address] after final.view ∧ MapOnly state final := by
  rcases Kernel.bind_ok.mp returned with ⟨frame, middle, allocated, mapped⟩
  rcases allocateFrame_consistent consistent allocated with
    ⟨member, rfl, allocatedConsistent, fresh⟩
  have empty : (state.allocate frame).view.entry (.heap (ppn address)) = 0 := free
  rcases mapHeapFrame_ok allocatedConsistent.toHeapLayout heap empty mapped with rfl
  have bounded := consistent.bounded frame fresh.managed
  have page := heapAddress_page heap
  have viewOf : ((state.allocate frame).mapHeap frame address).view =
      (state.view.allocate frame).attach frame (.heap (ppn address)) (heapEntry frame) := by
    rw [State.mapHeap, State.view_setBootEntry page.1 page.2]
    rfl
  have notFree : frame ∉ ghost.free.erase frame := fun inFree => fresh.unlisted (.inl inFree)
  have unheld : ghost.holders frame = ∅ := fresh.unheld
  have attached := allocatedConsistent.attach fresh.managed fresh.unlisted empty
    (ne_zero_of_present (present_heapEntry frame)) (frameOf_heapEntry bounded)
    (present_heapEntry frame) (by rw [fresh.unheld]; decide)
    (fun table nonzero => allocatedConsistent.table_frame_ne fresh.unheld nonzero)
    (fun env active page resident =>
      allocatedConsistent.resident_frame_ne fresh.unheld active resident)
    (by simp)
  rw [State.view_allocate] at attached
  have handed : HandedOut ghost
      ((({ ghost with free := ghost.free.erase frame } : Ghost)).attach frame
        (.heap (ppn address)))
      ((state.allocate frame).mapHeap frame address).view frame (ppn address) :=
    { free := member
      taken := notFree
      unheld := unheld
      held := by
        rw [Ghost.attach_holders_self, unheld]
        rfl
      entry := by
        rw [viewOf]
        simp [View.attach, View.setEntry] }
  refine ⟨_, frame, handed, ?_, ⟨_, _, _, _, rfl⟩⟩
  exact
    { consistent := by
        rw [viewOf]
        exact attached
      modified := rfl
      uncounted := rfl
      managed := rfl
      active := rfl
      loose := rfl
      table := by rw [viewOf]; rfl
      workingSet := by rw [viewOf]; rfl
      subset := fun other inFree => List.mem_of_mem_erase inFree
      length := by
        have positive := List.length_pos_of_mem member
        simp only [Ghost.attach, List.length_erase_of_mem member, List.length_singleton]
        omega
      wasFree := by simpa using free
      handedOut := by
        intro other inPages
        rw [List.mem_singleton] at inPages
        exact ⟨frame, inPages ▸ handed⟩
      taken := by
        intro other inFree gone
        have same : other = frame := by
          by_contra different
          exact gone ((List.mem_erase_of_ne different).mpr inFree)
        exact ⟨ppn address, by simp, same ▸ handed⟩
      entries := by
        intro slot outside
        rw [viewOf]
        simp [View.attach, View.setEntry, View.addReferences, View.setInfo, View.allocate,
          View.clearInfo, View.withFree, outside (ppn address) (by simp)]
      kept := by
        intro other condition
        have different : other ≠ frame := by
          rintro rfl
          exact condition.elim (fun absent => absent member) notFree
        rw [viewOf, Ghost.attach_holders_of_ne different]
        simp [View.attach, View.setEntry, View.addReferences, View.setInfo, View.allocate,
          View.clearInfo, View.withFree, different] }

theorem pageRange_ppn_nodup {start stop : Nat} (aligned : start % 4096 = 0) :
    ((pageRange start stop).map ppn).Nodup := by
  refine List.Nodup.map_on ?_ (pageRange_nodup start stop)
  intro left leftMember right rightMember equal
  rcases mem_pageRange.mp leftMember with ⟨leftIndex, rfl, -⟩
  rcases mem_pageRange.mp rightMember with ⟨rightIndex, rfl, -⟩
  simp only [ppn] at equal
  omega

theorem heapRecord_ok {record : KernelHeapRecord}
    (returned : heapRecord state = .ok (record, final)) :
    record = state.kHeapArr state.idx ∧ final = state := by
  replace returned := Kernel.bind_get_ok.mp returned
  rcases Kernel.ite_ok.mp returned with ⟨_, stopped⟩ | ⟨_, returned⟩
  · rcases Kernel.bind_ok.mp stopped with ⟨_, _, thrown, -⟩
    exact (Kernel.throw_ok.mp thrown).elim
  · rcases Kernel.pure_ok.mp returned with ⟨rfl, rfl⟩
    exact ⟨rfl, rfl⟩

theorem mapHeapPages_ok {nested : Nat → Kernel Nat} {fuel start last : Nat}
    (consistent : Consistent ghost state.view) (aligned : start % 4096 = 0)
    (record : (state.kHeapArr state.idx).last = last)
    (heap : ∀ address ∈ pageRange start (last + 1), HeapAddress address)
    (free : ∀ address ∈ pageRange start (last + 1),
      state.view.entry (.heap (ppn address)) = 0)
    (returned : mapHeapPages nested fuel start state = .ok ((), final)) :
    ∃ after, HeapGrowth ghost state.view ((pageRange start (last + 1)).map ppn) after
      final.view ∧ MapOnly state final := by
  induction fuel generalizing state ghost start with
  | zero => exact (Kernel.throw_ok.mp returned).elim
  | succ fuel induction =>
      rw [mapHeapPages] at returned
      rcases Kernel.bind_ok.mp returned with ⟨_, _, read, looped⟩
      rcases heapRecord_ok read with ⟨rfl, rfl⟩
      rw [record] at looped
      rcases Kernel.ite_ok.mp looped with ⟨inside, looped⟩ | ⟨outside, stopped⟩
      · rcases Kernel.bind_ok.mp looped with ⟨_, middle, mapped, rest⟩
        have cons := pageRange_cons (show start < last + 1 by omega)
        have first : start ∈ pageRange start (last + 1) := by
          rw [cons]
          exact List.mem_cons_self
        rcases mapHeapPage_ok consistent (heap start first) (free start first) mapped
          with ⟨after, frame, handed, one, only⟩
        have nodup : ((pageRange start (last + 1)).map ppn).Nodup := pageRange_ppn_nodup aligned
        rw [cons] at heap free nodup ⊢
        rw [List.map_cons, List.nodup_cons] at nodup
        have stillFree : ∀ other ∈ pageRange (start + 4096) (last + 1),
            middle.view.entry (.heap (ppn other)) = 0 := by
          intro other member
          have different : ppn other ≠ ppn start := fun equal =>
            nodup.1 (equal ▸ List.mem_map_of_mem member)
          rw [one.entries (.heap (ppn other)) (by simpa using different)]
          exact free other (by simp [member])
        have sameRecord : (middle.kHeapArr middle.idx).last = last := by
          rcases only with ⟨_, _, _, _, rfl⟩
          exact record
        have small : (start + 4096) % 2 ^ 32 = start + 4096 := by
          have bound := (heap start (by simp)).upper
          grind
        rw [small] at rest
        have nextAligned : (start + 4096) % 4096 = 0 := by omega
        rcases induction one.consistent nextAligned sameRecord
          (fun other member => heap other (by simp [member])) stillFree rest with
          ⟨later, growth, onlyRest⟩
        rw [List.map_cons]
        exact ⟨later, .cons handed one growth nodup.1, only.trans onlyRest⟩
      · rcases Kernel.pure_ok.mp stopped with ⟨-, rfl⟩
        rw [pageRange_nil (by omega)]
        exact ⟨ghost, .nil consistent, .refl _⟩

/-! ## `kmalloc` -/

/-- The requests that the kernel heap serves: at least one byte, and a page count that
fits in 32 bits. -/
structure Request (size : Nat) : Prop where
  positive : 0 < size
  bounded : size ≤ 0xFFFFF000

theorem Request.roundUp {size : Nat} (request : Request size) :
    roundUp size = roundUp size / 4096 * 4096 ∧ 0 < roundUp size / 4096 ∧
      roundUp size / 4096 < 2 ^ 20 := by
  have positive := request.positive
  have bounded := request.bounded
  simp only [FosKernel.roundUp, roundDown]
  omega

/-- A successful call of `kmalloc`. -/
structure KernelAllocation (ghost : Ghost) (state : State) (size : Nat)
    (record : KernelHeapRecord) (after : Ghost) (final : State) : Prop where
  scanned : ∃ start, HeapScanned state.view (roundUp size / 4096) start record
  growth : HeapGrowth ghost state.view ((pageRange record.first (record.last + 1)).map ppn)
    after final.view
  only : HeapOnly state final
  startAdd : final.startAdd = record.last + 4096
  idx : final.idx = state.idx + 1
  records : final.kHeapArr = Function.update state.kHeapArr state.idx record

/-- The state with another record at `IDX`. -/
def State.withHeapRecord (state : State) (record : KernelHeapRecord) : State :=
  { state with kHeapArr := Function.update state.kHeapArr state.idx record }

/-- The record at `IDX` when the search begins. -/
def requestRecord (state : State) (size : Nat) : KernelHeapRecord :=
  { state.kHeapArr state.idx with size := roundUp size }

/-- The search of `kmalloc`, given up after `fuel` iterations. -/
def heapSearch (state : State) (size fuel : Nat) : Except Stop HeapScanResult :=
  heapScanLoop (state.withHeapRecord (requestRecord state size)) fuel
    ⟨state.startAdd, 0, 0, requestRecord state size⟩

theorem State.withHeapRecord_withHeapRecord (state : State) (first second : KernelHeapRecord) :
    (state.withHeapRecord first).withHeapRecord second = state.withHeapRecord second := by
  simp [State.withHeapRecord]

/-- `kmalloc` after its search. -/
theorem kmalloc_cases {size result : Nat}
    (returned : kmalloc size state = .ok (result, final)) :
    (state.kHeapPlacementStrategy ≠ .nextFit ∧ result = 0 ∧
        final = state.withHeapRecord (requestRecord state size)) ∨
      (∃ record, heapSearch state size heapScanFuel = .ok (.null record) ∧ result = 0 ∧
        final = state.withHeapRecord record) ∨
      ∃ record mapped, heapSearch state size heapScanFuel = .ok (.found record) ∧
        mapHeapPages (kmallocNested (2 ^ 20)) heapMapFuel record.first
          (state.withHeapRecord record) = .ok ((), mapped) ∧
        result = (mapped.kHeapArr mapped.idx).first ∧
        final = { mapped with
          startAdd := ((mapped.kHeapArr mapped.idx).last + 4096) % 2 ^ 32
          idx := mapped.idx + 1 } := by
  replace returned := Kernel.bind_get_ok.mp returned
  rcases Kernel.ite_ok.mp returned with ⟨_, stopped⟩ | ⟨_, returned⟩
  · rcases Kernel.bind_ok.mp stopped with ⟨_, _, thrown, -⟩
    exact (Kernel.throw_ok.mp thrown).elim
  rcases Kernel.bind_ok.mp returned with ⟨_, sized, recorded, ended⟩
  have sizedState : sized = state.withHeapRecord (requestRecord state size) :=
    (Kernel.modify_ok.mp recorded).symm
  subst sizedState
  rcases Kernel.ite_ok.mp ended with ⟨_, searched⟩ | ⟨other, unsearched⟩
  · replace searched := Kernel.bind_get_ok.mp searched
    rcases Kernel.bind_observe_ok.mp searched with ⟨outcome, scanned, finished⟩
    have search : heapSearch state size heapScanFuel = .ok outcome := by
      rw [← scanned, heapSearch]
      simp [State.withHeapRecord]
    cases outcome with
    | null record =>
        rcases Kernel.bind_ok.mp finished with ⟨_, written, recorded, finished⟩
        rcases Kernel.pure_ok.mp finished with ⟨rfl, rfl⟩
        refine .inr (.inl ⟨record, search, rfl, ?_⟩)
        rw [← Kernel.modify_ok.mp recorded]
        exact state.withHeapRecord_withHeapRecord _ _
    | found record =>
        rcases Kernel.bind_ok.mp finished with ⟨_, written, recorded, finished⟩
        have writtenState : written = state.withHeapRecord record :=
          (Kernel.modify_ok.mp recorded).symm.trans (state.withHeapRecord_withHeapRecord _ _)
        subst writtenState
        rcases Kernel.bind_ok.mp finished with ⟨_, mapped, looped, finished⟩
        rcases Kernel.bind_ok.mp finished with ⟨last, _, read, ended⟩
        rcases heapRecord_ok read with ⟨rfl, rfl⟩
        replace ended := Kernel.bind_modify_ok.mp ended
        rcases Kernel.pure_ok.mp ended with ⟨rfl, rfl⟩
        exact .inr (.inr ⟨record, _, search, looped, rfl, rfl⟩)
  · rcases Kernel.pure_ok.mp unsearched with ⟨rfl, rfl⟩
    exact .inl ⟨other, rfl, rfl⟩

/-- Mapping the run that the search has found. -/
theorem HeapScanned.allocation {size start : Nat} {record : KernelHeapRecord}
    {nested : Nat → Kernel Nat} {mapped : State}
    (scanned : HeapScanned state.view (roundUp size / 4096) start record)
    (consistent : Consistent ghost state.view) (positive : 0 < roundUp size / 4096)
    (looped : mapHeapPages nested heapMapFuel record.first (state.withHeapRecord record) =
      .ok ((), mapped)) :
    mapped.kHeapArr mapped.idx = record ∧ ∃ after, KernelAllocation ghost state size record after
      { mapped with startAdd := (record.last + 4096) % 2 ^ 32, idx := mapped.idx + 1 } := by
  have written : (state.withHeapRecord record).kHeapArr (state.withHeapRecord record).idx =
      record := by
    simp [State.withHeapRecord]
  rcases mapHeapPages_ok (show Consistent ghost (state.withHeapRecord record).view from
      consistent) scanned.first_heapAddress.aligned
    (congrArg KernelHeapRecord.last written)
    (fun address member => (scanned.free positive member).1)
    (fun address member => (scanned.free positive member).2) looped with ⟨after, growth, only⟩
  rcases only with ⟨_, _, _, _, rfl⟩
  rcases scanned.last_heapAddress.next with ⟨lower, upper, aligned⟩
  have small : (record.last + 4096) % 2 ^ 32 = record.last + 4096 := by
    simp only [kernelHeapMax] at upper
    omega
  rw [small]
  refine ⟨written, after, ?_⟩
  exact
    { scanned := ⟨start, scanned⟩
      growth := growth.setStartAdd lower upper aligned
      only := ⟨_, _, _, _, _, _, _, rfl⟩
      startAdd := rfl
      idx := rfl
      records := rfl }

theorem heapSearch_ok (layout : HeapLayout state.view) {size fuel : Nat}
    (request : Request size) {outcome : HeapScanResult}
    (searched : heapSearch state size fuel = .ok outcome) :
    outcome.Sound state.view (roundUp size / 4096) := by
  rcases request.roundUp with ⟨whole, positive, fits⟩
  have layoutThere : HeapLayout (state.withHeapRecord (requestRecord state size)).view := layout
  have requested : (requestRecord state size).size = roundUp size / 4096 * 4096 := whole
  exact heapScanLoop_ok layoutThere fits (heapScan_start layoutThere positive requested) searched

theorem kmalloc_ok (consistent : Consistent ghost state.view) {size result : Nat}
    (request : Request size) (returned : kmalloc size state = .ok (result, final)) :
    (result = 0 ∧
      (state.kHeapPlacementStrategy = .nextFit → ∀ start,
        start + roundUp size / 4096 ≤ kernelHeapPages →
          ¬FreeRun state.view start (roundUp size / 4096)) ∧
      ∃ record, final =
        { state with kHeapArr := Function.update state.kHeapArr state.idx record }) ∨
      ∃ record after, result = record.first ∧
        KernelAllocation ghost state size record after final := by
  have layout := consistent.toHeapLayout
  rcases kmalloc_cases returned with
    ⟨other, rfl, rfl⟩ | ⟨record, searched, rfl, rfl⟩ |
      ⟨record, mapped, searched, looped, rfl, rfl⟩
  · exact .inl ⟨rfl, fun strategy => absurd strategy other, _, rfl⟩
  · have full := (heapSearch_ok layout request searched).2
    exact .inl ⟨rfl, fun _ => full, record, rfl⟩
  · rcases heapSearch_ok layout request searched with ⟨start, scanned⟩
    rcases scanned.allocation consistent request.roundUp.2.1 looped with
      ⟨written, after, allocation⟩
    rw [written]
    exact .inr ⟨record, after, rfl, allocation⟩

/-- The records of all blocks lie in the heap. -/
def HeapRecords (state : State) : Prop :=
  ∀ index, index < state.idx →
    HeapAddress (state.kHeapArr index).first ∧ HeapAddress (state.kHeapArr index).last

theorem HeapRecords.congr (records : HeapRecords state) (idx : final.idx = state.idx)
    (kHeapArr : final.kHeapArr = state.kHeapArr) : HeapRecords final := by
  unfold HeapRecords
  rw [idx, kHeapArr]
  exact records

theorem KernelAllocation.heapRecords {size : Nat} {record : KernelHeapRecord} {after : Ghost}
    (allocation : KernelAllocation ghost state size record after final)
    (records : HeapRecords state) : HeapRecords final := by
  intro index bound
  rw [allocation.records]
  by_cases newest : index = state.idx
  · rcases allocation.scanned with ⟨start, scanned⟩
    rw [newest, Function.update_self]
    exact ⟨scanned.first_heapAddress, scanned.last_heapAddress⟩
  · rw [Function.update_of_ne newest]
    rw [allocation.idx] at bound
    exact records index (by omega)

/-- All blocks are of one page. -/
def SingleRecords (state : State) : Prop :=
  ∀ index, index < state.idx → (state.kHeapArr index).last = (state.kHeapArr index).first

theorem SingleRecords.congr (single : SingleRecords state) (idx : final.idx = state.idx)
    (kHeapArr : final.kHeapArr = state.kHeapArr) : SingleRecords final := by
  unfold SingleRecords
  rw [idx, kHeapArr]
  exact single

theorem KernelAllocation.singleRecords {size : Nat} {record : KernelHeapRecord} {after : Ghost}
    (allocation : KernelAllocation ghost state size record after final)
    (last : record.last = record.first) (single : SingleRecords state) :
    SingleRecords final := by
  intro index bound
  rw [allocation.records]
  by_cases newest : index = state.idx
  · rw [newest, Function.update_self]
    exact last
  · rw [Function.update_of_ne newest]
    rw [allocation.idx] at bound
    exact single index (by omega)

/-! ## `kfree` -/

theorem findHeapRecord_some {record : KernelHeapRecord}
    (found : findHeapRecord state address = some record) :
    ∃ index < state.idx, state.kHeapArr index = record ∧ record.first = address := by
  rcases Option.map_eq_some_iff.mp found with ⟨index, located, rfl⟩
  have bound := List.mem_of_find?_eq_some located
  have equal := List.find?_some located
  simp only [List.mem_reverse, List.mem_range] at bound
  exact ⟨index, bound, rfl, by simpa using equal⟩

/-- `kfree` unmaps the pages of the record it finds. -/
theorem kfree_ok (records : HeapRecords state)
    (returned : kfree address state = .ok ((), final)) :
    (findHeapRecord state address = none ∧ final = state) ∨
      ∃ record, findHeapRecord state address = some record ∧
        (∀ page ∈ pageRange address (record.last + 1), HeapAddress page) ∧
        Kernel.forEach unmapHeapPage (pageRange address (record.last + 1)) state =
          .ok ((), final) := by
  replace returned := Kernel.bind_get_ok.mp returned
  cases found : findHeapRecord state address with
  | none =>
      rw [found] at returned
      exact .inl ⟨rfl, (Kernel.pure_ok.mp returned).2.symm⟩
  | some record =>
      rw [found] at returned
      rcases findHeapRecord_some found with ⟨index, bound, located, rfl⟩
      have heap := records index bound
      rw [located] at heap
      refine .inr ⟨record, rfl, fun page member => ?_, returned⟩
      exact pageRange_heapAddress heap.1.lower (by have := heap.2.upper; omega)
        heap.1.aligned member

/-- Some heap pages have lost their frames. -/
structure HeapShrink (ghost : Ghost) (view : View) (pages : List Nat) (after : Ghost)
    (final : View) : Prop where
  consistent : Consistent after final
  modified : after.modified = ghost.modified
  uncounted : after.uncounted = ghost.uncounted
  managed : after.managed = ghost.managed
  active : after.active = ghost.active
  loose : after.loose = ghost.loose
  table : final.table = view.table
  workingSet : final.workingSet = view.workingSet
  startAdd : final.startAdd = view.startAdd
  subset : ∀ frame, after.holders frame ⊆ ghost.holders frame
  unbuffered : ∀ frame, (view.info frame).isBuffered = false →
    (final.info frame).isBuffered = false
  back : GivesBack ghost view after final
  cleared : ∀ page ∈ pages, final.entry (.heap page) = 0
  entries : ∀ slot, (∀ page ∈ pages, slot ≠ .heap page) → final.entry slot = view.entry slot
  kept : ∀ frame, (∀ page ∈ pages, Slot.heap page ∉ ghost.holders frame) →
    (after.Listed frame ↔ ghost.Listed frame) ∧ after.holders frame = ghost.holders frame ∧
      final.info frame = view.info frame

/-- A heap page that may be given back: it is free, or its frame counts it and holds no
table. -/
def Releasable (ghost : Ghost) (view : View) (page : Nat) : Prop :=
  view.entry (.heap page) = 0 ∨
    Slot.heap page ∉ ghost.uncounted ∧
      (ghost.holders (frameOf (view.entry (.heap page)))).card < 2 ^ 16 ∧
      ∀ table, view.table table ≠ 0 →
        frameOf (view.table table) ≠ frameOf (view.entry (.heap page))

theorem HeapShrink.nil {view : View} (consistent : Consistent ghost view) :
    HeapShrink ghost view [] ghost view where
  consistent := consistent
  modified := rfl
  uncounted := rfl
  managed := rfl
  active := rfl
  loose := rfl
  table := rfl
  workingSet := rfl
  startAdd := rfl
  subset _ := Finset.Subset.refl _
  unbuffered _ plain := plain
  back := .refl
  cleared := by simp
  entries _ _ := rfl
  kept _ _ := ⟨Iff.rfl, rfl, rfl⟩

theorem HeapShrink.cons {middle last : Ghost} {view between lastView : View} {page : Nat}
    {pages : List Nat} (one : HeapShrink ghost view [page] middle between)
    (rest : HeapShrink middle between pages last lastView) :
    HeapShrink ghost view (page :: pages) last lastView where
  consistent := rest.consistent
  modified := rest.modified.trans one.modified
  uncounted := rest.uncounted.trans one.uncounted
  managed := rest.managed.trans one.managed
  active := rest.active.trans one.active
  loose := rest.loose.trans one.loose
  table := rest.table.trans one.table
  workingSet := rest.workingSet.trans one.workingSet
  startAdd := rest.startAdd.trans one.startAdd
  subset frame := (rest.subset frame).trans (one.subset frame)
  unbuffered frame plain := rest.unbuffered frame (one.unbuffered frame plain)
  back := one.back.trans rest.back one.subset
  cleared := by
    intro other member
    by_cases later : other ∈ pages
    · exact rest.cleared other later
    · have same : other = page := (List.mem_cons.mp member).resolve_right later
      have outside : ∀ somePage ∈ pages, Slot.heap other ≠ .heap somePage := by
        rintro somePage inPages ⟨rfl⟩
        exact later inPages
      rw [rest.entries _ outside]
      exact one.cleared other (by simp [same])
  entries := by
    intro slot outside
    rw [rest.entries slot fun somePage member => outside somePage (by simp [member]),
      one.entries slot fun somePage member => outside somePage (by simp_all)]
  kept := by
    intro frame outside
    rcases one.kept frame fun somePage member => outside somePage (by simp_all) with
      ⟨listed, holders, info⟩
    rcases rest.kept frame fun somePage member => by
        rw [holders]
        exact outside somePage (by simp [member]) with
      ⟨listedLater, holdersLater, infoLater⟩
    exact ⟨listedLater.trans listed, holdersLater.trans holders, infoLater.trans info⟩

/-- No frame leaves the free list. -/
theorem HeapShrink.free_kept {view lastView : View} {last : Ghost} {pages : List Nat}
    (shrink : HeapShrink ghost view pages last lastView) (consistent : Consistent ghost view)
    (free : frame ∈ ghost.free) : frame ∈ last.free := by
  have outside : ∀ page ∈ pages, Slot.heap page ∉ ghost.holders frame := by
    intro page _ held
    rcases (consistent.buffered frame (.inl free) _ held).1 with ⟨_, _, equal⟩
    cases equal
  have listed := (shrink.kept frame outside).1.mpr (.inl free)
  refine listed.resolve_right fun inModified => ?_
  rw [shrink.modified] at inModified
  exact consistent.lists.apart frame free inModified

/-- The frame of a page that goes is free when no other page holds it. -/
theorem HeapShrink.freed {view lastView : View} {last : Ghost} {pages : List Nat} {page : Nat}
    (shrink : HeapShrink ghost view pages last lastView) (consistent : Consistent ghost view)
    (member : page ∈ pages) (held : ghost.holders frame = {.heap page}) : frame ∈ last.free := by
  have unheld : last.holders frame = ∅ := by
    apply Finset.eq_empty_of_forall_notMem
    intro slot holds
    have own := shrink.subset frame holds
    rw [held, Finset.mem_singleton] at own
    subst own
    exact (shrink.consistent.mem_holders.mp holds).2.1 (shrink.cleared page member)
  have before : ghost.holders frame ≠ ∅ := by
    rw [held]
    exact Finset.singleton_ne_empty _
  refine (shrink.back.freed frame unheld (.inl before)).resolve_right fun inModified => ?_
  rw [shrink.modified] at inModified
  have own : Slot.heap page ∈ ghost.holders frame := by
    rw [held]
    exact Finset.mem_singleton_self _
  rcases (consistent.buffered frame (.inr inModified) _ own).1 with ⟨_, _, equal⟩
  cases equal

theorem Releasable.after {view final : View} {after : Ghost} {pages : List Nat} {page : Nat}
    (releasable : Releasable ghost view page)
    (shrink : HeapShrink ghost view pages after final) : Releasable after final page := by
  by_cases inside : page ∈ pages
  · exact .inl (shrink.cleared page inside)
  · have same : final.entry (.heap page) = view.entry (.heap page) := by
      refine shrink.entries _ ?_
      rintro other member ⟨rfl⟩
      exact inside member
    rcases releasable with free | ⟨visible, few, noTable⟩
    · exact .inl (same.trans free)
    · refine .inr ⟨by rwa [shrink.uncounted], ?_, ?_⟩
      · rw [same]
        exact Nat.lt_of_le_of_lt (Finset.card_le_card (shrink.subset _)) few
      · rw [same, shrink.table]
        exact noTable

theorem View.setEntry_self {view : View} {slot : Slot} {word : Word}
    (equal : view.entry slot = word) : view.setEntry slot word = view := by
  apply View.ext <;> try rfl
  simp only [View.setEntry, ← equal, Function.update_eq_self]

/-- The second store of a zero changes nothing. -/
theorem State.setBootEntry_self {page : Nat} {word : Word}
    (same : state.bootTables page = word) : state.setBootEntry page word = state := by
  rw [State.setBootEntry, ← same, Function.update_eq_self]

theorem State.setBootEntry_twice (page : Nat) (first second : Word) :
    (state.setBootEntry page first).setBootEntry page second =
      state.setBootEntry page second := by
  simp [State.setBootEntry]

/-- The body of the loop of `kfree` changes nothing at a free page, and else unmaps it. -/
theorem unmapHeapPage_state (layout : HeapLayout state.view) (heap : HeapAddress address)
    (returned : unmapHeapPage address state = .ok ((), final)) :
    (state.view.entry (.heap (ppn address)) = 0 ∧ final = state) ∨
      state.view.entry (.heap (ppn address)) ≠ 0 ∧
        final = state.unmapHeap (frameOf (state.view.entry (.heap (ppn address)))) address := by
  rcases Kernel.bind_ok.mp returned with ⟨_, middle, unmapped, ended⟩
  rcases Kernel.bind_observe_ok.mp ended with ⟨⟨status, pointer⟩, looked, stored⟩
  have page := heapAddress_page heap
  rw [getPageTable_kernel _ heap.kernel] at looked
  rcases unmapFrame_heap layout heap unmapped with ⟨free, rfl⟩ | ⟨mapped, rfl⟩
  · rcases kernelPageTable_heap layout heap looked with ⟨-, rfl⟩
    rcases store_boot_ok stored with rfl
    refine .inl ⟨free, ?_⟩
    rw [pdx_mul_add_ptx, State.setBootEntry_self (heap.slotEntry.symm.trans free)]
  · have layoutAfter : HeapLayout (state.unmapHeap
        (frameOf (state.view.entry (.heap (ppn address)))) address).view := by
      rw [State.unmapHeap, State.view_setBootEntry page.1 page.2, State.decrement_eq]
      exact { layout with }
    rcases kernelPageTable_heap layoutAfter heap looked with ⟨-, rfl⟩
    rcases store_boot_ok stored with rfl
    refine .inr ⟨mapped, ?_⟩
    rw [pdx_mul_add_ptx, State.unmapHeap, State.setBootEntry_twice]

theorem unmapHeapPage_view (layout : HeapLayout state.view) (heap : HeapAddress address)
    (returned : unmapHeapPage address state = .ok ((), final)) :
    MapOnly state final ∧
      ((state.view.entry (.heap (ppn address)) = 0 ∧ final.view = state.view) ∨
        state.view.entry (.heap (ppn address)) ≠ 0 ∧
          final.view = state.view.detach (frameOf (state.view.entry (.heap (ppn address))))
            (.heap (ppn address))) := by
  have page := heapAddress_page heap
  rcases unmapHeapPage_state layout heap returned with ⟨free, rfl⟩ | ⟨mapped, rfl⟩
  · exact ⟨.refl _, .inl ⟨free, rfl⟩⟩
  · refine ⟨?_, .inr ⟨mapped, ?_⟩⟩
    · rw [State.unmapHeap, State.decrement_eq]
      exact ⟨_, _, _, _, rfl⟩
    · rw [State.unmapHeap, State.view_setBootEntry page.1 page.2, State.view_decrement]
      rfl

/-- Unmapping free pages changes nothing. -/
theorem unmapHeapPages_free {addresses : List Nat} (layout : HeapLayout state.view)
    (heap : ∀ address ∈ addresses, HeapAddress address)
    (free : ∀ address ∈ addresses, state.view.entry (.heap (ppn address)) = 0)
    (returned : Kernel.forEach unmapHeapPage addresses state = .ok ((), final)) :
    final = state := by
  induction addresses with
  | nil =>
      rcases Kernel.pure_ok.mp returned with ⟨-, rfl⟩
      rfl
  | cons address addresses induction =>
      rcases Kernel.bind_ok.mp returned with ⟨_, middle, unmapped, rest⟩
      rcases unmapHeapPage_state layout (heap address (by simp)) unmapped with
        ⟨-, rfl⟩ | ⟨mapped, -⟩
      · exact induction (fun other member => heap other (by simp [member]))
          (fun other member => free other (by simp [member])) rest
      · exact absurd (free address (by simp)) mapped

/-- Unmapping writes no entry of another page. -/
theorem unmapHeapPages_others {addresses : List Nat} (layout : HeapLayout state.view)
    (heap : ∀ address ∈ addresses, HeapAddress address)
    (returned : Kernel.forEach unmapHeapPage addresses state = .ok ((), final)) {page : Nat}
    (outside : page ∉ addresses.map ppn) : final.bootTables page = state.bootTables page := by
  induction addresses generalizing state with
  | nil =>
      rcases Kernel.pure_ok.mp returned with ⟨-, rfl⟩
      rfl
  | cons address addresses induction =>
      rcases Kernel.bind_ok.mp returned with ⟨_, middle, unmapped, rest⟩
      rw [List.map_cons, List.mem_cons, not_or] at outside
      have only := (unmapHeapPage_view layout (heap address (by simp)) unmapped).1
      rw [induction (only.layout layout) (fun other member => heap other (by simp [member])) rest
        outside.2]
      rcases unmapHeapPage_state layout (heap address (by simp)) unmapped with
        ⟨-, rfl⟩ | ⟨-, rfl⟩
      · rfl
      · rw [State.unmapHeap, State.decrement_eq, State.setBootEntry]
        exact Function.update_of_ne outside.1 _ _

/-- Unmapping clears the entries of its pages and no others, whatever they refer to. -/
theorem unmapHeapPages_entries {addresses : List Nat} (layout : HeapLayout state.view)
    (heap : ∀ address ∈ addresses, HeapAddress address)
    (returned : Kernel.forEach unmapHeapPage addresses state = .ok ((), final)) :
    MapOnly state final ∧
      (∀ page, final.view.entry (.heap page) = state.view.entry (.heap page) ∨
        final.view.entry (.heap page) = 0) ∧
      ∀ address ∈ addresses, final.view.entry (.heap (ppn address)) = 0 := by
  induction addresses generalizing state with
  | nil =>
      rcases Kernel.pure_ok.mp returned with ⟨-, rfl⟩
      exact ⟨.refl state, fun _ => .inl rfl, by simp⟩
  | cons address addresses induction =>
      rcases Kernel.bind_ok.mp returned with ⟨_, middle, unmapped, rest⟩
      rcases unmapHeapPage_view layout (heap address (by simp)) unmapped with ⟨only, effect⟩
      rcases induction (only.layout layout) (fun other member => heap other (by simp [member]))
        rest with ⟨onlyRest, shrunk, cleared⟩
      have one : (∀ page, middle.view.entry (.heap page) = state.view.entry (.heap page) ∨
          middle.view.entry (.heap page) = 0) ∧
          middle.view.entry (.heap (ppn address)) = 0 := by
        rcases effect with ⟨free, same⟩ | ⟨-, same⟩
        · rw [same]
          exact ⟨fun _ => .inl rfl, free⟩
        · rw [same]
          have kept : (state.view.decrement (frameOf (state.view.entry
              (.heap (ppn address))))).entry = state.view.entry := by
            simp only [View.decrement]
            split <;> rfl
          refine ⟨fun page => ?_, by simp [View.detach, View.setEntry]⟩
          by_cases own : page = ppn address
          · simp [View.detach, View.setEntry, own]
          · simp [View.detach, View.setEntry, own, kept]
      refine ⟨only.trans onlyRest, fun page => ?_, ?_⟩
      · rcases shrunk page with same | zero
        · rw [same]
          exact one.1 page
        · exact .inr zero
      · intro other member
        rcases List.mem_cons.mp member with rfl | later
        · rcases shrunk (ppn other) with same | zero
          · rw [same]
            exact one.2
          · exact zero
        · exact cleared other later

theorem unmapHeapPage_ok (consistent : Consistent ghost state.view)
    (heap : HeapAddress address) (releasable : Releasable ghost state.view (ppn address))
    (returned : unmapHeapPage address state = .ok ((), final)) :
    ∃ after, HeapShrink ghost state.view [ppn address] after final.view ∧
      MapOnly state final := by
  rcases unmapHeapPage_view consistent.toHeapLayout heap returned with
    ⟨only, ⟨free, same⟩ | ⟨mapped, same⟩⟩
  · refine ⟨ghost, ?_, only⟩
    rw [same]
    exact { HeapShrink.nil consistent with
      cleared := by simpa using free
      entries := fun _ _ => rfl
      kept := fun _ _ => ⟨Iff.rfl, rfl, rfl⟩ }
  · rcases releasable with free | ⟨visible, few, noTable⟩
    · exact absurd free mapped
    generalize holder : frameOf (state.view.entry (.heap (ppn address))) = frame at *
    have held : Slot.heap (ppn address) ∈ ghost.holders frame :=
      consistent.mem_holders.mpr ⟨visible, mapped, holder⟩
    have unlisted : ¬ghost.Listed frame := by
      intro listed
      rcases (consistent.buffered frame listed _ held).1 with ⟨_, _, equal⟩
      contradiction
    have detached := consistent.detach held unlisted few noTable (by simp)
    have decrementParts : (state.view.decrement frame).entry = state.view.entry ∧
        (state.view.decrement frame).table = state.view.table ∧
        (state.view.decrement frame).workingSet = state.view.workingSet ∧
        (state.view.decrement frame).startAdd = state.view.startAdd := by
      simp only [View.decrement]
      split <;> exact ⟨rfl, rfl, rfl, rfl⟩
    refine ⟨ghost.unmap frame (.heap (ppn address)), ?_, only⟩
    rw [same]
    exact
      { consistent := detached
        modified := rfl
        uncounted := rfl
        managed := rfl
        active := rfl
        loose := rfl
        table := decrementParts.2.1
        workingSet := decrementParts.2.2.1
        startAdd := decrementParts.2.2.2
        subset := fun other => Finset.erase_subset _ _
        unbuffered := by
          intro other plain
          simp only [View.detach, View.setEntry, View.decrement]
          by_cases own : other = frame <;> split <;>
            simp_all [View.release, View.clearInfo, View.withFree, View.addReferences,
              View.setInfo]
        back := .ofUnmap consistent held unlisted
        cleared := by simp [View.detach, View.setEntry]
        entries := by
          intro slot outside
          simp [View.detach, View.setEntry, outside (ppn address) (by simp),
            decrementParts.1]
        kept := by
          intro other outside
          have notHeld := outside (ppn address) (by simp)
          have different : other ≠ frame := fun equal => notHeld (equal ▸ held)
          refine ⟨?_, Finset.erase_eq_of_notMem notHeld, ?_⟩
          · simp only [Ghost.unmap]
            split
            · simp [Ghost.Listed, Ghost.detach, different]
            · rfl
          · simp only [View.detach, View.setEntry, View.decrement]
            split <;>
              simp [View.release, View.clearInfo, View.withFree, View.addReferences,
                View.setInfo, different] }

theorem unmapHeapPages_ok {addresses : List Nat} (consistent : Consistent ghost state.view)
    (heap : ∀ address ∈ addresses, HeapAddress address)
    (releasable : ∀ address ∈ addresses, Releasable ghost state.view (ppn address))
    (returned : Kernel.forEach unmapHeapPage addresses state = .ok ((), final)) :
    ∃ after, HeapShrink ghost state.view (addresses.map ppn) after final.view ∧
      MapOnly state final := by
  induction addresses generalizing state ghost with
  | nil =>
      rcases Kernel.pure_ok.mp returned with ⟨-, rfl⟩
      exact ⟨ghost, .nil consistent, .refl state⟩
  | cons address addresses induction =>
      rcases Kernel.bind_ok.mp returned with ⟨_, middle, unmapped, rest⟩
      rcases unmapHeapPage_ok consistent (heap address (by simp))
        (releasable address (by simp)) unmapped with ⟨after, one, only⟩
      rcases induction one.consistent (fun other member => heap other (by simp [member]))
        (fun other member => (releasable other (by simp [member])).after one) rest with
        ⟨last, shrink, onlyRest⟩
      exact ⟨last, .cons one shrink, only.trans onlyRest⟩

end Mapping

end FosKernel
