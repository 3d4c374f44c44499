import FosKernel.Refinement.PageEntries
import FosKernel.Properties.KernelHeap

/-! # `map_frame`

When a call of `map_frame` leaves the requested entry, keeps the entries of all other pages
and takes one reference from the frame that was at the page.
-/

namespace FosKernel.MapFrame

open KernelHeap (sample_cleared)

section Calls

variable {ghost : Ghost} {state final : State} {owner : Directory}
variable {frame address : Nat} {perm : Word}

/-- Lookup is exact. The page table of a user address is found, or it is missing and there
is a page for a new one; the page tables of the kernel are the boot tables. -/
inductive ExactLookup (state : State) (owner : Directory) (address : Nat) : Prop
  | found (info : Option Nat) (pointer : TablePointer) :
      getFrameInfo state owner address = .ok (info, pointer) → pointer ≠ .null →
      (userTop ≤ address → pointer = .boot (pdx address)) → ExactLookup state owner address
  | missing (newPT : Nat) (grown : State) : address < userTop →
      getPageTable state owner address = .ok (.notExist, .null) →
      TablePage state newPT grown → ExactLookup state owner address

/-- The heap page where `kmalloc` puts a page table that has to be made. -/
def NewTablePage (state : State) (owner : Directory) (address page : Nat) : Prop :=
  address < userTop ∧ directoryEntry state owner address = 0 ∧
    ∃ newPT grown, kmalloc 4096 state = .ok (newPT, grown) ∧ page = ppn newPT

/-- The requested mapping and nothing else. -/
structure Established (state : State) (owner : Directory) (frame address : Nat) (perm : Word)
    (final : State) : Prop where
  entry : final.pageEntry owner (ppn address) = constructEntry frame (perm ||| permPresent)
  others : ∀ other page, ¬SamePage owner address other page →
    ¬NewTablePage state owner address page →
      final.pageEntry other page = state.pageEntry other page
  replaced : state.pageEntry owner (ppn address) ≠ 0 →
    frameOf (state.pageEntry owner (ppn address)) ≠ frame →
      (final.framesInfo (frameOf (state.pageEntry owner (ppn address)))).references =
        ((state.framesInfo (frameOf (state.pageEntry owner (ppn address)))).references +
          (2 ^ 16 - 1)) % 2 ^ 16

def Establishes (state : State) (owner : Directory) (frame address : Nat) (perm : Word) : Prop :=
  ∃ final, mapFrame owner frame address perm state = .ok ((), final) ∧
    Established state owner frame address perm final

/-- The frame is not at the page with other flags, and no other frame is buffered there. -/
structure Replaceable (state : State) (owner : Directory) (frame address : Nat) (perm : Word) :
    Prop where
  present : EarlyReturn state owner frame address →
    state.pageEntry owner (ppn address) = constructEntry frame (perm ||| permPresent)
  buffered : state.pageEntry owner (ppn address) ≠ 0 →
    ¬hasPerm (state.pageEntry owner (ppn address)) permPresent = true →
      frameOf (state.pageEntry owner (ppn address)) = frame

/-! ## A page table that is there -/

theorem entryAt_found (layout : HeapLayout state.view) {info : Option Nat}
    {pointer : TablePointer} (found : getFrameInfo state owner address = .ok (info, pointer))
    (nonnull : pointer ≠ .null) (boot : userTop ≤ address → pointer = .boot (pdx address)) :
    EntryAt state owner address pointer ∧ TablePresent state owner address := by
  by_cases user : address < userTop
  · rcases getFrameInfo_user layout user found with ⟨-, null, -⟩ | ⟨present, points, -⟩
    · exact absurd null nonnull
    · rcases points with ⟨table, rfl, heap, refers⟩
      rcases Except.bind_ok.mp found with ⟨⟨status, pointer⟩, -, framed⟩
      rcases Except.bind_ok.mp framed with ⟨value, returned, ended⟩
      cases ended
      rcases frameAt_ok returned with ⟨null, -⟩ | ⟨-, word, loaded, -⟩
      · exact absurd null nonnull
      rcases Except.bind_ok.mp loaded with ⟨reached, mapped, -⟩
      have same : frameOf (directoryEntry state owner address) = reached :=
        refers.symm.trans (kernelFrame_ok mapped).2
      exact ⟨.kernel user present (same ▸ mapped), fun _ => present⟩
  · have kernel : userTop ≤ address := by omega
    rw [boot kernel]
    exact ⟨.boot kernel, fun below => absurd below user⟩

/-- A frame that is already there keeps its old flags, and a buffered frame keeps its
reference. -/
theorem enterFrame_established (placement : Placement ghost state.view)
    (present : TablePresent state owner address) :
    Established state owner frame address perm (state.enterFrame owner frame address perm) ↔
      Replaceable state owner frame address perm := by
  constructor
  · intro established
    refine ⟨fun early => ?_, fun nonzero unmapped => ?_⟩
    · rw [← established.entry, State.enterFrame_same early]
    · by_contra different
      have count := established.replaced nonzero different
      rw [State.enterFrame_forgotten unmapped different] at count
      omega
  · intro replaceable
    by_cases early : EarlyReturn state owner frame address
    · rw [State.enterFrame_same early]
      exact ⟨replaceable.present early, fun _ _ _ _ => rfl,
        fun _ different => absurd early.2 different⟩
    · refine ⟨State.enterFrame_entry placement present early,
        fun _ _ apart _ => State.enterFrame_pageEntry placement present apart,
        fun nonzero different => ?_⟩
      by_cases mapped : hasPerm (state.pageEntry owner (ppn address)) permPresent = true
      · exact State.enterFrame_replaced mapped different
      · exact absurd (replaceable.buffered nonzero mapped) different

/-! ## A page table that is not there -/

theorem pageEntry_absent (user : address < userTop)
    (absent : directoryEntry state owner address = 0) :
    state.pageEntry owner (ppn address) = 0 := by
  rw [State.pageEntry, if_pos (address_user user).1]
  exact entry_user_absent absent

theorem replaceable_of_zero (empty : state.pageEntry owner (ppn address) = 0) :
    Replaceable state owner frame address perm where
  present early := absurd empty (ne_zero_of_present early.1)
  buffered nonzero := absurd empty nonzero

/-- A new page table has nothing to replace. -/
theorem establishes_missing (consistent : Consistent ghost state.view) {newPT : Nat}
    {grown : State} (user : address < userTop)
    (missing : getPageTable state owner address = .ok (.notExist, .null))
    (room : TablePage state newPT grown) :
    Establishes state owner frame address perm ∧ Replaceable state owner frame address perm := by
  rcases getPageTable_user consistent.toHeapLayout user missing with
    ⟨absent, -, -⟩ | ⟨-, found, -⟩
  · have empty := pageEntry_absent user absent
    refine ⟨?_, replaceable_of_zero empty⟩
    rcases mapFrame_creates consistent user missing room with
      ⟨after, middle, made, returned⟩
    have early : ¬EarlyReturn middle owner frame address :=
      fun early => ne_zero_of_present early.1 made.empty
    have placement := made.table.background.evolves.consistent.toPlacement
    refine ⟨_, returned, State.enterFrame_entry placement (fun _ => made.table.present) early,
      fun other page apart outside => ?_, fun nonzero => absurd empty nonzero⟩
    rw [State.enterFrame_pageEntry placement (fun _ => made.table.present) apart]
    exact made.others other page fun inside =>
      outside ⟨user, absent, newPT, grown, room.allocated, inside⟩
  · cases found

/-- `map_frame` establishes the mapping exactly when the frame is not there with other
flags and no other frame is buffered there. -/
theorem established_iff_replaceable (consistent : Consistent ghost state.view)
    (exact : ExactLookup state owner address) :
    Establishes state owner frame address perm ↔ Replaceable state owner frame address perm := by
  cases exact with
  | found info pointer found nonnull boot =>
      rcases entryAt_found consistent.toHeapLayout found nonnull boot with ⟨entry, present⟩
      have returned : mapFrame owner frame address perm state =
          .ok ((), state.enterFrame owner frame address perm) := mapFrame_run found nonnull entry
      rw [← enterFrame_established consistent.toPlacement present]
      constructor
      · rintro ⟨last, ended, established⟩
        rw [returned] at ended
        cases ended
        exact established
      · exact fun established => ⟨_, returned, established⟩
  | missing newPT grown user missing room =>
      rcases establishes_missing consistent user missing room with ⟨establishes, replaceable⟩
      exact ⟨fun _ => replaceable, fun _ => establishes⟩

end Calls

/-! ## A page of the kernel heap -/

theorem exact_lookup_heap {ghost : Ghost} {state : State} {address : Nat}
    (supplied : Supplied ghost state) (heap : HeapAddress address) :
    ExactLookup state .kernel address := by
  refine .found _ _ (getFrameInfo_returns supplied.consistent.toHeapLayout supplied.serviceable
    heap) ?_ fun _ => rfl
  intro null
  cases null

theorem heap_first : HeapAddress kernelHeapStart := ⟨by decide, by decide, by decide⟩

/-- A page that is not mapped. -/
theorem established_in_empty_heap :
    ∃ ghost, Consistent ghost sampleState.view ∧
      ExactLookup sampleState .kernel kernelHeapStart ∧
      (Establishes sampleState .kernel 0x800 kernelHeapStart permWriteable ↔
        Replaceable sampleState .kernel 0x800 kernelHeapStart permWriteable) := by
  rcases sample_cleared with ⟨ghost, cleared, -⟩
  have supplied := cleared.sound.supplied
  have lookup := exact_lookup_heap supplied heap_first
  exact ⟨ghost, supplied.consistent, lookup,
    established_iff_replaceable supplied.consistent lookup⟩

/-- A page of the heap is mapped once more, without `PERM_WRITEABLE`. -/
theorem flags_not_established :
    ∃ ghost state frame, Consistent ghost state.view ∧
      ExactLookup state .kernel kernelHeapStart ∧
      ¬Establishes state .kernel frame kernelHeapStart 0 := by
  rcases sample_cleared with ⟨ghost, cleared, length⟩
  have request : Request 0x1000 := ⟨by decide, by decide⟩
  rcases cleared.kmalloc request (show 0 < 2 ^ 20 by decide) (by decide)
    (by rw [length]; decide) with ⟨record, after, grown, returned, first, last, allocation⟩
  replace first : record.first = kernelHeapStart := first
  have supplied := (cleared.sound.grow allocation).supplied
  have consistent := supplied.consistent
  have lookup := exact_lookup_heap supplied heap_first
  rw [first] at returned
  rcases kmalloc_page cleared.sound.supplied.consistent returned (by decide) with
    ⟨frame, growth, new⟩
  have entry : grown.pageEntry .kernel (ppn kernelHeapStart) = heapEntry frame :=
    new.handed.entry
  have bound := new.bound cleared.sound.supplied.consistent
  have early : EarlyReturn grown .kernel frame kernelHeapStart := by
    rw [EarlyReturn, entry]
    exact ⟨present_heapEntry frame, frameOf_heapEntry bound⟩
  refine ⟨_, grown, frame, consistent, lookup, ?_⟩
  rintro ⟨final, ended, established⟩
  rcases entryAt_found consistent.toHeapLayout
    (getFrameInfo_returns consistent.toHeapLayout supplied.serviceable heap_first)
    (fun null => by cases null) (fun _ => rfl) with ⟨entryAt, -⟩
  rw [mapFrame_run (getFrameInfo_returns consistent.toHeapLayout supplied.serviceable heap_first)
    (fun null => by cases null) entryAt, State.enterFrame_same early] at ended
  cases ended
  have same := established.entry
  rw [entry] at same
  have bit := congrArg (fun word => word.getLsbD 1) same
  simp only [heapEntry, getLsbD_constructEntry _ _ (show 1 < 12 by decide)] at bit
  exact absurd bit (by decide)

end FosKernel.MapFrame
