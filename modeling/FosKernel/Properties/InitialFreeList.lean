import FosKernel.KernelVM
import FosKernel.Refinement.Boot

/-! # The initial free list is exact

The loops of `initialize_paging` cover the frames without a gap or an overlap, whatever the
state before them: those below the I/O hole and those above the boot allocations are free.
-/

namespace FosKernel.InitialFreeList

open LinkedList

section Loops

variable {state : State} {frames list : List Nat}

/-- What a loop over frames leaves: records, the free list, and the rest of the lists. -/
structure Looped (state final : State) (list : List Nat) (info : Nat → FrameInfo) : Prop where
  free : Represents final.frameLinks final.freeFrameList list
  info : final.framesInfo = info
  modified : final.modifiedFrameList = state.modifiedFrameList
  number : final.numberOfFrames = state.numberOfFrames

theorem freeFrames_looped (free : Represents state.frameLinks state.freeFrameList list)
    (nodup : frames.Nodup) (fresh : ∀ frame ∈ frames, frame ∉ list)
    (room : frames.length + list.length < 2 ^ 32) :
    ∃ final, Kernel.forEach freeFrame frames state = .ok ((), final) ∧
      Looped state final (frames.reverse ++ list) fun frame =>
        if frame ∈ frames then FrameInfo.zero else state.framesInfo frame := by
  induction frames generalizing state list with
  | nil => exact ⟨state, rfl, free, by simp, rfl, rfl⟩
  | cons frame frames induction =>
      rw [List.nodup_cons] at nodup
      rw [List.length_cons] at room
      have outside : frame ∉ list := fresh frame (by simp)
      have cleared : Represents (Function.update state.frameLinks frame Link.null)
          state.freeFrameList list := by
        refine free.congr fun value member => Function.update_of_ne ?_ _ _
        rintro rfl
        exact outside member
      have released : Represents (state.release frame).frameLinks
          (state.release frame).freeFrameList (frame :: list) :=
        cleared.listInsertHead outside (by omega)
      have still : ∀ other ∈ frames, other ∉ frame :: list := by
        intro other member
        rw [List.mem_cons, not_or]
        refine ⟨?_, fresh other (by simp [member])⟩
        rintro rfl
        exact nodup.1 member
      rcases induction released nodup.2 still (by rw [List.length_cons]; omega) with
        ⟨final, ran, later⟩
      refine ⟨final, Kernel.bind_ok.mpr ⟨(), state.release frame, rfl, ran⟩, ?_, ?_,
        later.modified, later.number⟩
      · rw [List.reverse_cons, List.append_assoc]
        exact later.free
      · rw [later.info]
        funext other
        by_cases among : other ∈ frames
        · rw [if_pos among, if_pos (List.mem_cons_of_mem _ among)]
        · rw [if_neg among]
          by_cases same : other = frame
          · rw [same, if_pos (by simp)]
            exact Function.update_self ..
          · rw [if_neg (by simp [same, among])]
            exact Function.update_of_ne same _ _

theorem setReferences_looped (free : Represents state.frameLinks state.freeFrameList list) :
    ∃ final, Kernel.forEach (setReferences 1) frames state = .ok ((), final) ∧
      Looped state final list fun frame =>
        if frame ∈ frames then { state.framesInfo frame with references := 1 }
        else state.framesInfo frame := by
  induction frames generalizing state with
  | nil => exact ⟨state, rfl, free, by simp, rfl, rfl⟩
  | cons frame frames induction =>
      rcases @induction (state.setFrameInfo frame { state.framesInfo frame with references := 1 })
        free with ⟨final, ran, later⟩
      refine ⟨final, Kernel.bind_ok.mpr ⟨(), _, rfl, ran⟩, later.free, ?_, later.modified,
        later.number⟩
      rw [later.info]
      funext other
      by_cases same : other = frame
      · subst same
        simp [State.setFrameInfo]
      · simp [State.setFrameInfo, same]

/-- The disk frames concern no frame. -/
theorem initializeDiskPageFile_looped
    (free : Represents state.frameLinks state.freeFrameList list) :
    ∃ final, initializeDiskPageFile state = .ok ((), final) ∧
      Looped state final list state.framesInfo := by
  have loop : ∀ (frames : List Nat) (state : State), ∃ final,
      Kernel.forEach (fun dfn => do
        modify fun state =>
          { state with diskLinks := Function.update state.diskLinks dfn Link.null }
        modify fun state => state.withDiskFree (listInsertHead state.diskFree dfn))
        frames state = .ok ((), final) := by
    intro frames
    induction frames with
    | nil => exact fun state => ⟨state, rfl⟩
    | cons frame frames induction =>
        intro state
        rcases induction _ with ⟨final, ran⟩
        exact ⟨final, Kernel.bind_ok.mpr ⟨(), _, rfl, ran⟩⟩
  rcases loop (counter 1 pagesPerFile) (state.withDiskFree (listInit state.diskFree)) with
    ⟨final, ran⟩
  have returned : initializeDiskPageFile state = .ok ((), final) := Kernel.bind_modify_ok.mpr ran
  have same := (initializeDiskPageFile_ok returned).2
  have links : final.frameLinks = state.frameLinks := congrArg View.links same
  have head : final.freeFrameList = state.freeFrameList := congrArg View.free same
  refine ⟨final, returned, ?_, congrArg View.info same, congrArg View.modified same,
    congrArg View.numberOfFrames same⟩
  rw [links, head]
  exact free

end Loops

/-! ## Boot memory -/

/-- The pointer that `boot_allocate_space` starts from. -/
def freePointer (image : KernelImage) (boot : BootState) : Nat :=
  if boot.ptrFreeMem = 0 then image.endOfKernel else boot.ptrFreeMem

theorem bootAllocateSpace_next {image : KernelImage} {boot next : BootState}
    {size align address : Nat} (positive : 0 < align)
    (fits : freePointer image boot + (align - 1) + size < 2 ^ 32)
    (returned : bootAllocateSpace image size align boot = .ok (address, next)) :
    ∃ start, freePointer image boot ≤ start ∧ next.ptrFreeMem = start + size ∧
      next.blocks = ⟨start, size⟩ :: boot.blocks := by
  let rounded := freePointer image boot + (align - 1)
  have inside : rounded % 2 ^ 32 = rounded := Nat.mod_eq_of_lt (by omega)
  have rest : rounded % align < align := Nat.mod_lt _ positive
  have sum : (rounded - rounded % align + size) % 2 ^ 32 = rounded - rounded % align + size :=
    Nat.mod_eq_of_lt (by omega)
  have run : bootAllocateSpace image size align boot = .ok (rounded % 2 ^ 32 -
      rounded % 2 ^ 32 % align, { boot with
        ptrFreeMem := (rounded % 2 ^ 32 - rounded % 2 ^ 32 % align + size) % 2 ^ 32
        blocks := ⟨rounded % 2 ^ 32 - rounded % 2 ^ 32 % align, size⟩ :: boot.blocks }) := by
    simp only [rounded, freePointer]
    split
    · next zero =>
      simp only [bootAllocateSpace, bind, StateT.bind, get, getThe, MonadStateOf.get, StateT.get,
        pure, Except.bind, Except.pure, zero, if_true, modify, modifyGet,
        MonadStateOf.modifyGet, StateT.modifyGet]
      rfl
    · next nonzero =>
      simp only [bootAllocateSpace, bind, StateT.bind, get, getThe, MonadStateOf.get, StateT.get,
        pure, Except.bind, Except.pure, nonzero, if_false, modify, modifyGet,
        MonadStateOf.modifyGet, StateT.modifyGet]
      rfl
  rw [run, inside, sum, Except.ok.injEq, Prod.mk.injEq] at returned
  rcases returned with ⟨_, rfl⟩
  exact ⟨rounded - rounded % align, by omega, rfl, rfl⟩

/-- Boot up to a call of `boot_allocate_space` inside the address space; what else boot does
leaves the pointer and the allocations alone. -/
inductive Allocated (image : KernelImage) : BootState → Prop
  | start (memory : Nat → Nat → Word) : Allocated image (BootState.start memory)
  | allocate {boot next : BootState} {size align address : Nat} (run : Allocated image boot)
      (positive : 0 < align) (fits : freePointer image boot + (align - 1) + size < 2 ^ 32)
      (returned : bootAllocateSpace image size align boot = .ok (address, next)) :
      Allocated image next
  | other {boot next : BootState} (run : Allocated image boot)
      (pointer : next.ptrFreeMem = boot.ptrFreeMem) (blocks : next.blocks = boot.blocks) :
      Allocated image next

/-- The kernel image and the boot allocations. -/
def InUse (image : KernelImage) (boot : BootState) (address : Nat) : Prop :=
  kernelBase + extendedFrame * 4096 ≤ address ∧ address < image.endOfKernel ∨
    ∃ block ∈ boot.blocks, block.start ≤ address ∧ address < block.start + block.size

/-- The allocations lie above the kernel image and below the pointer. -/
theorem Allocated.bounds {image : KernelImage} {boot : BootState} (run : Allocated image boot) :
    boot.ptrFreeMem = 0 ∧ boot.blocks = [] ∨ image.endOfKernel ≤ boot.ptrFreeMem ∧
      ∀ block ∈ boot.blocks, image.endOfKernel ≤ block.start ∧
        block.start + block.size ≤ boot.ptrFreeMem := by
  induction run with
  | start memory => exact .inl ⟨rfl, rfl⟩
  | @allocate boot next size align address run positive fits returned induction =>
      rcases bootAllocateSpace_next positive fits returned with ⟨start, above, pointer, blocks⟩
      have lower : image.endOfKernel ≤ freePointer image boot ∧
          boot.ptrFreeMem ≤ freePointer image boot := by
        rw [freePointer]
        split
        · omega
        · rcases induction with zero | bounds
          · omega
          · exact ⟨bounds.1, le_rfl⟩
      refine .inr ⟨by omega, fun block member => ?_⟩
      rw [blocks] at member
      rcases List.mem_cons.mp member with rfl | earlier
      · exact ⟨by simp only; omega, by simp only; omega⟩
      · rcases induction with zero | bounds
        · rw [zero.2] at earlier
          cases earlier
        · have block := bounds.2 block earlier
          omega
  | other run pointer blocks induction =>
      rw [pointer, blocks]
      exact induction

theorem Allocated.inUse {image : KernelImage} {boot : BootState} (run : Allocated image boot)
    (nonzero : boot.ptrFreeMem ≠ 0) {address : Nat} (used : InUse image boot address) :
    kernelBase + extendedFrame * 4096 ≤ address ∧ address < boot.ptrFreeMem := by
  have lower := image.stackLower
  have upper := image.stackUpper
  rcases run.bounds with zero | bounds
  · exact absurd zero.1 nonzero
  · rcases used with code | ⟨block, member, first, last⟩
    · omega
    · have block := bounds.2 block member
      omega

/-! ## The list -/

/-- The frames that are free at first, in one list. -/
def IsFree (kernelFrames numberOfFrames frame : Nat) : Prop :=
  3 ≤ frame ∧ frame < ioFrame ∨ kernelFrames ≤ frame ∧ frame < numberOfFrames

structure ExactFreeList (kernelFrames : Nat) (state : State) (list : List Nat) : Prop where
  free : Represents state.frameLinks state.freeFrameList list
  mem_iff : ∀ frame, frame ∈ list ↔ IsFree kernelFrames state.numberOfFrames frame
  unused : ∀ frame ∈ list, (state.framesInfo frame).references = 0 ∧
    (state.framesInfo frame).isBuffered = false
  others : ∀ frame < state.numberOfFrames, frame ∉ list → (state.framesInfo frame).references = 1
  modified : Represents state.frameLinks state.modifiedFrameList []

theorem counter_length (start stop : Nat) : (counter start stop).length = stop - start := by
  rw [counter, List.length_range']

theorem initializePaging_list {state : State} {kernelFrames : Nat}
    (lower : extendedFrame ≤ kernelFrames) (upper : kernelFrames ≤ state.numberOfFrames)
    (word : state.numberOfFrames < 2 ^ 32) :
    ∃ final list, initializePaging kernelFrames state = .ok ((), final) ∧
      final.numberOfFrames = state.numberOfFrames ∧ ExactFreeList kernelFrames final list := by
  let emptied := (state.withFree (listInit state.free)).withModified
    (listInit (state.withFree (listInit state.free)).modified)
  have empty : Represents emptied.frameLinks emptied.freeFrameList [] :=
    represents_nil.mpr ⟨rfl, rfl, rfl⟩
  rcases @setReferences_looped emptied (counter 0 3) [] empty with ⟨lowest, ran₁, after₁⟩
  let cleared : State := { lowest with
    memory := fun frame index =>
      if (frame = 1 ∨ frame = 2) ∧ index < 256 then 0 else lowest.memory frame index }
  rcases @freeFrames_looped cleared (counter 3 ioFrame) [] after₁.free (counter_nodup _ _)
    (fun _ _ => List.not_mem_nil) (by rw [counter_length]; exact Nat.lt_of_sub_pos (by decide)) with
    ⟨low, ran₂, after₂⟩
  rcases @setReferences_looped low (counter ioFrame extendedFrame) _ after₂.free with
    ⟨io, ran₃, after₃⟩
  rcases @setReferences_looped io (counter extendedFrame kernelFrames) _ after₃.free with
    ⟨kernel, ran₄, after₄⟩
  have fresh : ∀ frame ∈ counter kernelFrames state.numberOfFrames,
      frame ∉ (counter 3 ioFrame).reverse ++ [] := by
    intro frame member
    rw [List.append_nil, List.mem_reverse]
    simp only [mem_counter, ioFrame, extendedFrame] at *
    omega
  have room : (counter kernelFrames state.numberOfFrames).length +
      ((counter 3 ioFrame).reverse ++ []).length < 2 ^ 32 := by
    simp only [List.append_nil, List.length_reverse, counter_length, ioFrame, extendedFrame] at *
    omega
  rcases @freeFrames_looped kernel (counter kernelFrames state.numberOfFrames) _ after₄.free
    (counter_nodup _ _) fresh room with ⟨high, ran₅, after₅⟩
  rcases initializeDiskPageFile_looped after₅.free with ⟨final, ran₆, after₆⟩
  have number : kernel.numberOfFrames = state.numberOfFrames := by
    rw [after₄.number, after₃.number, after₂.number]
    exact after₁.number
  have info : ∀ frame, final.framesInfo frame =
      if frame ∈ counter kernelFrames state.numberOfFrames then FrameInfo.zero
      else kernel.framesInfo frame := by
    intro frame
    rw [after₆.info, after₅.info]
  have returned : initializePaging kernelFrames state = .ok ((), final) := by
    refine Kernel.bind_modify_ok.mpr (Kernel.bind_modify_ok.mpr ?_)
    refine Kernel.bind_ok.mpr ⟨(), lowest, ran₁, Kernel.bind_ok.mpr ⟨(), cleared, rfl, ?_⟩⟩
    refine Kernel.bind_ok.mpr ⟨(), low, ran₂, Kernel.bind_ok.mpr ⟨(), io, ran₃, ?_⟩⟩
    refine Kernel.bind_ok.mpr ⟨(), kernel, ran₄, Kernel.bind_get_ok.mpr ?_⟩
    rw [number]
    exact Kernel.bind_ok.mpr ⟨(), high, ran₅, ran₆⟩
  have total : final.numberOfFrames = state.numberOfFrames := by
    rw [after₆.number, after₅.number, number]
  have lowestInfo : ∀ frame ∈ counter 0 3, (lowest.framesInfo frame).references = 1 :=
    fun frame member => by rw [after₁.info]; simp only [member, if_true]
  have lowInfo : ∀ frame, low.framesInfo frame =
      if frame ∈ counter 3 ioFrame then FrameInfo.zero else lowest.framesInfo frame :=
    fun frame => congrFun after₂.info frame
  have ioInfo : ∀ frame, io.framesInfo frame = if frame ∈ counter ioFrame extendedFrame then
      { low.framesInfo frame with references := 1 } else low.framesInfo frame :=
    fun frame => congrFun after₃.info frame
  have kernelInfo : ∀ frame, kernel.framesInfo frame =
      if frame ∈ counter extendedFrame kernelFrames then
        { io.framesInfo frame with references := 1 } else io.framesInfo frame :=
    fun frame => congrFun after₄.info frame
  refine ⟨final, _, returned, total, after₆.free, ?_, ?_, ?_, ?_⟩
  · intro frame
    rw [total, IsFree]
    simp only [List.append_nil, List.mem_append, List.mem_reverse, mem_counter]
    exact or_comm
  · intro frame member
    have zero : final.framesInfo frame = FrameInfo.zero := by
      rw [info]
      split
      · rfl
      · next notHigh =>
        have isLow : frame ∈ counter 3 ioFrame := by
          rcases List.mem_append.mp member with high | low
          · exact absurd (List.mem_reverse.mp high) notHigh
          · simpa using low
        have bounds := mem_counter.mp isLow
        simp only [ioFrame, extendedFrame] at bounds lower
        have notKernel : frame ∉ counter extendedFrame kernelFrames := by
          simp only [mem_counter, extendedFrame]
          omega
        have notIo : frame ∉ counter ioFrame extendedFrame := by
          simp only [mem_counter, ioFrame]
          omega
        rw [kernelInfo, if_neg notKernel, ioInfo, if_neg notIo, lowInfo, if_pos isLow]
    rw [zero]
    exact ⟨rfl, rfl⟩
  · intro frame below outside
    simp only [List.append_nil, List.mem_append, List.mem_reverse, not_or] at outside
    have notLow := outside.2
    have notHigh := outside.1
    rw [mem_counter] at notLow notHigh
    simp only [ioFrame, extendedFrame] at notLow lower
    rw [info, if_neg outside.1, kernelInfo]
    split
    · rfl
    · next notKernel =>
      rw [ioInfo]
      split
      · rfl
      · next notIo =>
        simp only [mem_counter, ioFrame, extendedFrame] at notKernel notIo
        rw [lowInfo, if_neg outside.2]
        exact lowestInfo frame (by rw [mem_counter]; omega)
  · have head : final.modifiedFrameList = emptied.modifiedFrameList := by
      rw [after₆.modified, after₅.modified, after₄.modified, after₃.modified, after₂.modified]
      exact after₁.modified
    rw [head]
    exact ⟨.nil _, List.nodup_nil, rfl, rfl, rfl⟩

/-- After `initialize_paging` the free list is exact, and no frame that holds the kernel image
or a boot allocation is on it. -/
theorem initial_list_exact {state : State} {ptrFreeMem : Nat} (pointer : ptrFreeMem < 2 ^ 32)
    (lower : kernelBase + extendedFrame * 4096 ≤ ptrFreeMem)
    (upper : ptrFreeMem - kernelBase ≤ state.numberOfFrames * 4096)
    (word : state.numberOfFrames < 2 ^ 32) :
    ∃ final list,
      initializePaging (roundUp (ptrFreeMem - kernelBase) / 4096) state = .ok ((), final) ∧
      final.numberOfFrames = state.numberOfFrames ∧
      ExactFreeList (roundUp (ptrFreeMem - kernelBase) / 4096) final list ∧
      ∀ image boot, Allocated image boot → boot.ptrFreeMem = ptrFreeMem →
        ∀ address, InUse image boot address → staticFrame address ∉ list := by
  have rounded : roundUp (ptrFreeMem - kernelBase) / 4096 =
      (ptrFreeMem - kernelBase + 4095) / 4096 := by
    simp only [roundUp, roundDown, kernelBase] at *
    omega
  rw [rounded]
  rcases @initializePaging_list state ((ptrFreeMem - kernelBase + 4095) / 4096)
    (by simp only [kernelBase, extendedFrame] at *; omega) (by omega) word with
    ⟨final, list, returned, number, exact⟩
  refine ⟨final, list, returned, number, exact, ?_⟩
  rintro image boot run rfl address used member
  have inside := run.inUse (by simp only [kernelBase, extendedFrame] at lower; omega) used
  have free := (exact.mem_iff _).mp member
  simp only [IsFree, staticFrame, ioFrame, extendedFrame, kernelBase] at free inside
  omega

/-- A kernel that ends in the middle of a page of 256 MiB of memory -/
theorem initial_list_sample : ∃ (final : State) (list : List Nat),
    initializePaging 0x800 (sampleLayout.beforePaging sampleContents) = .ok ((), final) ∧
      0x9F ∈ list ∧ 0x7FF ∉ list ∧ 0x800 ∈ list ∧ 0xFFFF ∈ list := by
  rcases @initial_list_exact (sampleLayout.beforePaging sampleContents) 0xF07FF234 (by decide)
    (by decide) (by decide) (by decide) with ⟨final, list, returned, number, exact, _⟩
  have bounds : roundUp (0xF07FF234 - kernelBase) / 4096 = 0x800 := by decide
  have frames : final.numberOfFrames = 0x10000 := number
  rw [bounds] at returned exact
  refine ⟨final, list, returned, ?_, ?_, ?_, ?_⟩
  all_goals
    rw [exact.mem_iff, frames, IsFree]
    decide

end FosKernel.InitialFreeList
