import FosKernel.KernelVM
import FosKernel.Foundation.Ensures

/-! # What `initialize_kernel_VM` builds

`Built` describes the directory, the page tables and the unused memory after any prefix
of the boot mapping. A new page table keeps what the memory held.
-/

namespace FosKernel

open Kernel

theorem Ensures.pages {body : Nat → StateT σ (Except ε) PUnit} (invariant : Nat → σ → Prop)
    {raised : ε → Prop} (size : Nat) {state : σ} (holds : invariant 0 state)
    (step : ∀ index state, index * 4096 < size → invariant index state →
      Ensures (body (index * 4096)) state (fun _ => invariant (index + 1)) raised) :
    Ensures ((pageRange 0 size).forM body) state
      (fun _ => invariant ((size + 4095) / 4096)) raised := by
  have visited : (pageRange 0 size).forM body =
      (List.range' 0 ((size + 4095) / 4096)).forM fun index => body (index * 4096) := by
    simp [pageRange, List.range_eq_range']
  rw [visited]
  have whole : Ensures
      ((List.range' 0 ((size + 4095) / 4096)).forM fun index => body (index * 4096)) state
      (fun _ => invariant (0 + (size + 4095) / 4096)) raised :=
    .counted invariant _ 0 holds fun index state _ upper => step index state (by omega)
  rwa [Nat.zero_add] at whole

/-! ## The invariant -/

def BootBlock.Apart (left right : BootBlock) : Prop :=
  left.start + left.size ≤ right.start ∨ right.start + right.size ≤ left.start

/-- The first frame after the kernel image. -/
def KernelImage.directoryFrame (image : KernelImage) : Nat :=
  ppn (image.endOfKernel + 4095 - kernelBase)

/-- The directory entry points to a page table. -/
structure IsTable (directory : Nat → Word) (index : Nat) : Prop where
  bound : index < 1024
  noSelfMap : ¬isSelfMap index
  nonzero : directory index ≠ 0

/-- The directory has the entries `directory`, the page tables have the entries
`entries`, and frames from `next` on are unused. -/
structure Built (image : KernelImage) (contents : Nat → Nat → Word) (next : Nat)
    (directory entries : Nat → Word) (state : BootState) : Prop where
  pointer : state.ptrPageDirectory = kernelBase + image.directoryFrame * 4096
  used : kernelBase < state.ptrFreeMem
  lower : state.ptrFreeMem ≤ kernelBase + next * 4096
  upper : kernelBase + next * 4096 < state.ptrFreeMem + 4096
  after : image.directoryFrame < next
  directoryEntry : ∀ index, index < 1024 →
    state.memory image.directoryFrame index = directory index
  tableLower : ∀ index, IsTable directory index →
    image.directoryFrame < frameOf (directory index)
  tableUpper : ∀ index, IsTable directory index → frameOf (directory index) < next
  apart : ∀ left right, IsTable directory left → IsTable directory right →
    frameOf (directory left) = frameOf (directory right) → left = right
  entry : ∀ page, IsTable directory (page / 1024) →
    state.memory (frameOf (directory (page / 1024))) (page % 1024) = entries page
  fresh : ∀ frame, next ≤ frame → state.memory frame = contents frame
  blocks : state.blocks.Pairwise BootBlock.Apart
  inside : ∀ block, block ∈ state.blocks →
    image.endOfKernel ≤ block.start ∧ block.start + block.size ≤ state.ptrFreeMem

/-- The entries after a page table was added for `index`. -/
def addTable (contents : Nat → Nat → Word) (entries : Nat → Word) (index frame page : Nat) :
    Word :=
  if page / 1024 = index then contents frame (page % 1024) else entries page

def addDirectoryEntry (directory : Nat → Word) (index frame : Nat) : Nat → Word :=
  Function.update directory index (constructEntry frame (permPresent ||| permWriteable))

theorem staticFrame_base (frame : Nat) : staticFrame (kernelBase + frame * 4096) = frame := by
  simp [staticFrame]

section Operations

variable {image : KernelImage} {contents : Nat → Nat → Word} {numberOfFrames next last : Nat}
  {directory entries : Nat → Word} {state : BootState}

theorem Built.word_directory (built : Built image contents next directory entries state)
    {index : Nat} (bound : index < 1024) :
    state.word (kernelBase + image.directoryFrame * 4096) index = directory index := by
  rw [BootState.word, staticFrame_base, built.directoryEntry index bound]

/-- The rounding up of the first free address. -/
theorem rounded_eq {address next : Nat} (lower : address ≤ kernelBase + next * 4096)
    (upper : kernelBase + next * 4096 < address + 4096) (bound : next ≤ 0x6000) :
    (address + (4096 - 1)) % 2 ^ 32 - (address + (4096 - 1)) % 2 ^ 32 % 4096 =
      kernelBase + next * 4096 := by
  simp only [kernelBase] at *
  omega

/-- The state after `boot_allocate_space`. -/
def BootState.allocated (state : BootState) (start size : Nat) : BootState :=
  { state with ptrFreeMem := start + size, blocks := ⟨start, size⟩ :: state.blocks }

theorem Built.allocate_run (built : Built image contents next directory entries state)
    {size : Nat} (bound : next * 4096 + size ≤ 0x6000 * 4096) :
    bootAllocateSpace image size 4096 state =
      .ok (kernelBase + next * 4096, state.allocated (kernelBase + next * 4096) size) := by
  have used := built.used
  have nonzero : state.ptrFreeMem ≠ 0 := by omega
  have rounded := rounded_eq built.lower built.upper (by omega)
  have sum : (kernelBase + next * 4096 + size) % 2 ^ 32 = kernelBase + next * 4096 + size :=
    Nat.mod_eq_of_lt (by simp only [kernelBase]; omega)
  unfold bootAllocateSpace
  simp only [bind, StateT.bind, get, getThe, MonadStateOf.get, StateT.get, pure, Except.bind,
    Except.pure, nonzero, ↓reduceIte, rounded, sum, modify, modifyGet,
    MonadStateOf.modifyGet, StateT.modifyGet, BootState.allocated]
  rfl

theorem Built.allocate (built : Built image contents next directory entries state)
    {size : Nat} {raised : Stop → Prop} (bound : next * 4096 + size ≤ 0x6000 * 4096) :
    Ensures (bootAllocateSpace image size 4096) state
      (fun pointer final => pointer = kernelBase + next * 4096 ∧
        final = state.allocated (kernelBase + next * 4096) size) raised := by
  unfold Ensures
  rw [built.allocate_run bound]
  exact ⟨rfl, rfl⟩

theorem BootState.clear_memory {state : BootState} {pointer size frame index : Nat}
    (outside : kernelBase + frame * 4096 + index * 4 < pointer ∨
      pointer + size ≤ kernelBase + frame * 4096 + index * 4) :
    (state.clear pointer size).memory frame index = state.memory frame index :=
  if_neg (by omega)

/-- An allocated block that is cleared at once. -/
theorem Built.claim (built : Built image contents next directory entries state) (size : Nat) :
    Built image contents (next + (size + 4095) / 4096) directory entries
      ((state.allocated (kernelBase + next * 4096) size).clear (kernelBase + next * 4096)
        size) where
  pointer := built.pointer
  used := by
    have := built.used
    have := built.lower
    simp only [BootState.clear, BootState.allocated]
    omega
  lower := by
    simp only [BootState.clear, BootState.allocated]
    omega
  upper := by
    simp only [BootState.clear, BootState.allocated]
    omega
  after := Nat.lt_add_right _ built.after
  directoryEntry index bound := by
    have after := built.after
    rw [BootState.clear_memory (.inl (by omega))]
    exact built.directoryEntry index bound
  tableLower := built.tableLower
  tableUpper index isTable := Nat.lt_add_right _ (built.tableUpper index isTable)
  apart := built.apart
  entry page isTable := by
    have upper := built.tableUpper _ isTable
    rw [BootState.clear_memory (.inl (by omega))]
    exact built.entry page isTable
  fresh frame unused := by
    funext index
    rw [BootState.clear_memory (.inr (by omega))]
    exact congrFun (built.fresh frame (by omega)) index
  blocks := by
    refine List.Pairwise.cons (fun block member => ?_) built.blocks
    have := (built.inside block member).2
    have := built.lower
    exact .inr (by simp only; omega)
  inside block member := by
    rcases List.mem_cons.mp member with rfl | member
    · have used := built.used
      have lower := built.lower
      have end_ : image.endOfKernel ≤ kernelBase + next * 4096 := by
        have after := built.after
        simp only [KernelImage.directoryFrame, ppn] at after
        omega
      exact ⟨end_, Nat.le_refl _⟩
    · have inside := built.inside block member
      have := built.lower
      exact ⟨inside.1, by simp only [BootState.clear, BootState.allocated]; omega⟩

theorem isTable_update {index other : Nat} {word : Word}
    (isTable : IsTable (Function.update directory index word) other) (apart : other ≠ index) :
    IsTable directory other := by
  refine ⟨isTable.bound, isTable.noSelfMap, ?_⟩
  have nonzero := isTable.nonzero
  rwa [Function.update_of_ne apart] at nonzero

/-- `boot_get_page_table` enters a new page table, whose words are those that the memory
held. -/
theorem Built.newTable (built : Built image contents next directory entries state)
    (index : Nat) (small : next < 2 ^ 20) :
    Built image contents (next + 1) (addDirectoryEntry directory index next)
      (addTable contents entries index next)
      ((state.allocated (kernelBase + next * 4096) 4096).setWord
        (kernelBase + image.directoryFrame * 4096) index
        (constructEntry next (permPresent ||| permWriteable))) := by
  have after := built.after
  have frame : frameOf (constructEntry next (permPresent ||| permWriteable)) = next :=
    frameOf_constructEntry small (by decide)
  have other : ∀ index', index' ≠ index → ∀ word,
      Function.update directory index word index' = directory index' :=
    fun index' apart word => Function.update_of_ne apart word directory
  unfold addDirectoryEntry addTable
  constructor
  case pointer => exact built.pointer
  case used =>
    have := built.used
    have := built.lower
    simp only [BootState.setWord, BootState.allocated]
    omega
  case lower =>
    simp only [BootState.setWord, BootState.allocated]
    omega
  case upper =>
    simp only [BootState.setWord, BootState.allocated]
    omega
  case after => omega
  case directoryEntry =>
    intro index' bound'
    simp only [BootState.setWord, staticFrame_base, Function.update_self]
    by_cases same : index' = index
    · rw [same, Function.update_self, Function.update_self]
    · rw [Function.update_of_ne same, Function.update_of_ne same]
      exact built.directoryEntry index' bound'
  case tableLower =>
    intro index' isTable
    by_cases same : index' = index
    · rw [same, Function.update_self, frame]
      exact after
    · rw [other index' same]
      exact built.tableLower index' (isTable_update isTable same)
  case tableUpper =>
    intro index' isTable
    by_cases same : index' = index
    · rw [same, Function.update_self, frame]
      omega
    · rw [other index' same]
      exact Nat.lt_succ_of_lt (built.tableUpper index' (isTable_update isTable same))
  case apart =>
    intro left right leftTable rightTable equal
    by_cases leftSame : left = index
    · by_cases rightSame : right = index
      · rw [leftSame, rightSame]
      · rw [leftSame, Function.update_self, frame, other right rightSame] at equal
        have := built.tableUpper right (isTable_update rightTable rightSame)
        omega
    · have leftOld := isTable_update leftTable leftSame
      by_cases rightSame : right = index
      · rw [rightSame, Function.update_self, frame, other left leftSame] at equal
        have := built.tableUpper left leftOld
        omega
      · rw [other left leftSame, other right rightSame] at equal
        exact built.apart left right leftOld (isTable_update rightTable rightSame) equal
  case entry =>
    intro page isTable
    by_cases same : page / 1024 = index
    · rw [same, Function.update_self, frame, if_pos rfl]
      simp only [BootState.setWord, BootState.allocated, staticFrame_base]
      rw [Function.update_of_ne (by omega), built.fresh next (Nat.le_refl _)]
    · have old := isTable_update isTable same
      have lower := built.tableLower _ old
      rw [other _ same, if_neg same]
      simp only [BootState.setWord, BootState.allocated, staticFrame_base]
      rw [Function.update_of_ne (by omega)]
      exact built.entry page old
  case fresh =>
    intro frame unused
    simp only [BootState.setWord, BootState.allocated, staticFrame_base]
    rw [Function.update_of_ne (by omega)]
    exact built.fresh frame (by omega)
  case blocks => exact (built.claim 4096).blocks
  case inside => exact (built.claim 4096).inside

/-- Writing an entry of a page table. -/
theorem Built.setEntry (built : Built image contents next directory entries state)
    {page : Nat} (isTable : IsTable directory (page / 1024)) (word : Word) :
    Built image contents next directory (Function.update entries page word)
      (state.setWord (kernelBase + frameOf (directory (page / 1024)) * 4096) (page % 1024)
        word) := by
  have lower := built.tableLower _ isTable
  have upper := built.tableUpper _ isTable
  constructor
  case pointer => exact built.pointer
  case used => exact built.used
  case lower => exact built.lower
  case upper => exact built.upper
  case after => exact built.after
  case directoryEntry =>
    intro index bound
    simp only [BootState.setWord, staticFrame_base]
    rw [Function.update_of_ne (by omega)]
    exact built.directoryEntry index bound
  case tableLower => exact built.tableLower
  case tableUpper => exact built.tableUpper
  case apart => exact built.apart
  case entry =>
    intro other otherTable
    simp only [BootState.setWord, staticFrame_base]
    by_cases sameTable : other / 1024 = page / 1024
    · rw [sameTable, Function.update_self]
      by_cases same : other = page
      · rw [same, Function.update_self, Function.update_self]
      · rw [Function.update_of_ne same, Function.update_of_ne (by omega), ← sameTable]
        exact built.entry other otherTable
    · have apart : frameOf (directory (other / 1024)) ≠ frameOf (directory (page / 1024)) :=
        fun equal => sameTable (built.apart _ _ otherTable isTable equal)
      have otherPage : other ≠ page := fun equal => sameTable (by rw [equal])
      rw [Function.update_of_ne apart, Function.update_of_ne otherPage]
      exact built.entry other otherTable
  case fresh =>
    intro frame unused
    simp only [BootState.setWord, staticFrame_base]
    rw [Function.update_of_ne (by omega)]
    exact built.fresh frame unused
  case blocks => exact built.blocks
  case inside => exact built.inside

/-- Writing a directory entry that stays a reference to its page table, or one of the
self maps. -/
theorem Built.setDirectory (built : Built image contents next directory entries state)
    (index : Nat) (word : Word)
    (same : isSelfMap index ∨
      frameOf word = frameOf (directory index) ∧ directory index ≠ 0) :
    Built image contents next (Function.update directory index word) entries
      (state.setWord (kernelBase + image.directoryFrame * 4096) index word) := by
  have old : ∀ other, IsTable (Function.update directory index word) other →
      IsTable directory other ∧
        frameOf (Function.update directory index word other) = frameOf (directory other) := by
    intro other isTable
    by_cases equal : other = index
    · subst equal
      rcases same with selfMap | ⟨sameFrame, nonzero⟩
      · exact (isTable.noSelfMap selfMap).elim
      · rw [Function.update_self]
        exact ⟨⟨isTable.bound, isTable.noSelfMap, nonzero⟩, sameFrame⟩
    · rw [Function.update_of_ne equal]
      exact ⟨isTable_update isTable equal, rfl⟩
  constructor
  case pointer => exact built.pointer
  case used => exact built.used
  case lower => exact built.lower
  case upper => exact built.upper
  case after => exact built.after
  case directoryEntry =>
    intro other bound
    simp only [BootState.setWord, staticFrame_base, Function.update_self]
    by_cases equal : other = index
    · rw [equal, Function.update_self, Function.update_self]
    · rw [Function.update_of_ne equal, Function.update_of_ne equal]
      exact built.directoryEntry other bound
  case tableLower =>
    intro other isTable
    rw [(old other isTable).2]
    exact built.tableLower other (old other isTable).1
  case tableUpper =>
    intro other isTable
    rw [(old other isTable).2]
    exact built.tableUpper other (old other isTable).1
  case apart =>
    intro left right leftTable rightTable equal
    rw [(old left leftTable).2, (old right rightTable).2] at equal
    exact built.apart left right (old left leftTable).1 (old right rightTable).1 equal
  case entry =>
    intro page isTable
    have lower := built.tableLower _ (old _ isTable).1
    rw [(old _ isTable).2]
    simp only [BootState.setWord, staticFrame_base]
    rw [Function.update_of_ne (by omega)]
    exact built.entry page (old _ isTable).1
  case fresh =>
    intro frame unused
    have after := built.after
    simp only [BootState.setWord, staticFrame_base]
    rw [Function.update_of_ne (by omega)]
    exact built.fresh frame unused
  case blocks => exact built.blocks
  case inside => exact built.inside

theorem staticKernelVirtualAddress_ensures {frame : Nat} (heap : frame < 0x6000)
    (upper : frame ≤ last) :
    Ensures (staticKernelVirtualAddress numberOfFrames (frame * 4096)) state
      (fun pointer final =>
        pointer = kernelBase + frame * 4096 ∧ final = state ∧ frame < numberOfFrames)
      (fun _ => numberOfFrames ≤ last) := by
  have page : ppn (frame * 4096) = frame := Nat.mul_div_cancel _ (by decide)
  have address : (frame * 4096 + kernelBase) % 2 ^ 32 = kernelBase + frame * 4096 := by
    rw [Nat.mod_eq_of_lt (by simp only [kernelBase]; omega), Nat.add_comm]
  unfold staticKernelVirtualAddress
  rw [page, address]
  by_cases invalid : numberOfFrames ≤ frame
  · rw [if_pos invalid]
    exact Nat.le_trans invalid upper
  · rw [if_neg invalid]
    exact ⟨rfl, rfl, by omega⟩

theorem staticKernelPhysicalAddress_ensures (frame : Nat) {raised : Stop → Prop} :
    Ensures (staticKernelPhysicalAddress (kernelBase + frame * 4096)) state
      (fun physical final => physical = frame * 4096 ∧ final = state) raised := by
  unfold staticKernelPhysicalAddress
  rw [if_neg (by omega), Nat.add_sub_cancel_left]
  exact ⟨rfl, rfl⟩

/-- A table that exists is found. -/
theorem Built.getPresent (built : Built image contents next directory entries state)
    {address : Nat} {create : Bool} (isTable : IsTable directory (pdx address))
    (heap : next ≤ 0x6000) (upper : next ≤ last + 1) :
    Ensures (bootGetPageTable image numberOfFrames (kernelBase + image.directoryFrame * 4096)
        address create) state
      (fun pointer final => pointer = kernelBase + frameOf (directory (pdx address)) * 4096 ∧
        final = state ∧ frameOf (directory (pdx address)) < numberOfFrames)
      (fun _ => numberOfFrames ≤ last) := by
  have tableLower := built.tableLower _ isTable
  have tableUpper := built.tableUpper _ isTable
  unfold bootGetPageTable
  refine .bind_get ?_
  rw [built.word_directory isTable.bound]
  refine .bind (staticKernelVirtualAddress_ensures (by omega) (by omega)) ?_
  rintro pointer final ⟨rfl, rfl, physical⟩
  rw [if_neg (by omega)]
  exact ⟨rfl, rfl, physical⟩

/-- A table that does not exist is allocated. -/
theorem Built.getAbsent (built : Built image contents next directory entries state)
    {address : Nat} (bound : pdx address < 1024) (absent : directory (pdx address) = 0)
    (heap : next < 0x6000) :
    Ensures (bootGetPageTable image numberOfFrames (kernelBase + image.directoryFrame * 4096)
        address true) state
      (fun pointer final => pointer = kernelBase + next * 4096 ∧
        final = (state.allocated (kernelBase + next * 4096) 4096).setWord
          (kernelBase + image.directoryFrame * 4096) (pdx address)
          (constructEntry next (permPresent ||| permWriteable)))
      (fun _ => numberOfFrames ≤ last) := by
  unfold bootGetPageTable
  refine .bind_get ?_
  rw [built.word_directory bound, absent]
  dsimp only
  rw [show frameOf 0 = 0 by decide]
  refine .bind (staticKernelVirtualAddress_ensures (by decide) (Nat.zero_le _)) ?_
  rintro _ final ⟨-, rfl, -⟩
  rw [if_pos (by decide), if_pos rfl]
  refine .bind (built.allocate (by omega)) ?_
  rintro _ _ ⟨rfl, rfl⟩
  refine .bind (staticKernelPhysicalAddress_ensures next) ?_
  rintro _ _ ⟨rfl, rfl⟩
  exact ⟨rfl, rfl⟩

end Operations

/-! ## The loops -/

/-- The pointers to the boot allocations are the same. -/
structure SameGlobals (state final : BootState) : Prop where
  physPageDirectory : final.physPageDirectory = state.physPageDirectory
  framesInfo : final.framesInfo = state.framesInfo
  diskFramesInfo : final.diskFramesInfo = state.diskFramesInfo
  envs : final.envs = state.envs

theorem SameGlobals.refl (state : BootState) : SameGlobals state state := ⟨rfl, rfl, rfl, rfl⟩

theorem SameGlobals.trans {first middle last : BootState} (left : SameGlobals first middle)
    (right : SameGlobals middle last) : SameGlobals first last :=
  ⟨right.physPageDirectory.trans left.physPageDirectory,
    right.framesInfo.trans left.framesInfo,
    right.diskFramesInfo.trans left.diskFramesInfo, right.envs.trans left.envs⟩

/-- The entries after `count` pages from `first` on are mapped to the frames from `frame`
on. -/
def mapRange (entries : Nat → Word) (first count frame : Nat) (perm : Word) (page : Nat) :
    Word :=
  if first ≤ page ∧ page < first + count then
    constructEntry (frame + (page - first)) (perm ||| permPresent)
  else entries page

theorem mapRange_zero (entries : Nat → Word) (first frame : Nat) (perm : Word) :
    mapRange entries first 0 frame perm = entries := by
  funext page
  exact if_neg (by omega)

theorem mapRange_succ (entries : Nat → Word) (first count frame : Nat) (perm : Word) :
    Function.update (mapRange entries first count frame perm) (first + count)
        (constructEntry (frame + count) (perm ||| permPresent)) =
      mapRange entries first (count + 1) frame perm := by
  funext page
  by_cases same : page = first + count
  · rw [same, Function.update_self, mapRange, if_pos (by omega), Nat.add_sub_cancel_left]
  · rw [Function.update_of_ne same, mapRange, mapRange]
    exact if_congr (by omega) rfl rfl

theorem mapRange_one (entries : Nat → Word) (first frame : Nat) (perm : Word) :
    Function.update entries first (constructEntry frame (perm ||| permPresent)) =
      mapRange entries first 1 frame perm := by
  have one := mapRange_succ entries first 0 frame perm
  rwa [mapRange_zero, Nat.add_zero, Nat.add_zero] at one

section Loops

variable {image : KernelImage} {contents : Nat → Nat → Word} {numberOfFrames next last : Nat}
  {directory entries : Nat → Word} {state : BootState}

theorem pdx_page (page : Nat) : pdx (page * 4096) = page / 1024 := by
  simp only [pdx, ppn]
  omega

theorem ptx_page (page : Nat) : ptx (page * 4096) = page % 1024 := by
  simp only [ptx, ppn]
  omega

theorem pageAddress {first index size : Nat} (inside : index * 4096 < size)
    (bound : first * 4096 + size ≤ 2 ^ 32) :
    (first * 4096 + index * 4096) % 2 ^ 32 = (first + index) * 4096 := by
  omega

/-- The entry of a page is written once its table is known. -/
theorem Built.mapEntry (built : Built image contents next directory entries state)
    {page : Nat} (isTable : IsTable directory (page / 1024)) (frame : Nat) (perm : Word) :
    Built image contents next directory
      (Function.update entries page (constructEntry frame (perm ||| permPresent)))
      (state.setWord (kernelBase + frameOf (directory (pdx (page * 4096))) * 4096)
        (ptx (page * 4096)) (BitVec.ofNat 32 (frame * 4096) ||| (perm ||| permPresent))) := by
  rw [pdx_page, ptx_page]
  exact built.setEntry isTable _

/-- One page of a range whose table exists. -/
theorem Built.mapPage (built : Built image contents next directory entries state)
    {page : Nat} (isTable : IsTable directory (page / 1024)) (heap : next ≤ 0x6000)
    (upper : next ≤ last + 1) (frame : Nat) (perm : Word) :
    Ensures (bootMapPage image numberOfFrames (kernelBase + image.directoryFrame * 4096)
        (page * 4096) (frame * 4096) perm) state
      (fun _ final =>
        Built image contents next directory
          (Function.update entries page (constructEntry frame (perm ||| permPresent))) final ∧
        SameGlobals state final ∧ frameOf (directory (page / 1024)) < numberOfFrames)
      (fun _ => numberOfFrames ≤ last) := by
  unfold bootMapPage
  refine .bind (built.getPresent (by rw [pdx_page]; exact isTable) heap upper) ?_
  rintro _ final ⟨rfl, rfl, physical⟩
  rw [pdx_page] at physical
  exact ⟨built.mapEntry isTable frame perm, ⟨rfl, rfl, rfl, rfl⟩, physical⟩

/-- A range whose tables exist. -/
theorem Built.mapRange (built : Built image contents next directory entries state)
    (first size frame : Nat) (perm : Word)
    (tables : ∀ index, index * 4096 < size → IsTable directory ((first + index) / 1024))
    (heap : next ≤ 0x6000) (upper : next ≤ last + 1)
    (addresses : first * 4096 + size ≤ 2 ^ 32) (physical : frame * 4096 + size ≤ 2 ^ 32) :
    Ensures (bootMapRange image numberOfFrames (kernelBase + image.directoryFrame * 4096)
        (first * 4096) size (frame * 4096) perm) state
      (fun _ final =>
        Built image contents next directory
          (FosKernel.mapRange entries first ((size + 4095) / 4096) frame perm) final ∧
        SameGlobals state final)
      (fun _ => numberOfFrames ≤ last) := by
  have start : Built image contents next directory
        (FosKernel.mapRange entries first 0 frame perm) state ∧ SameGlobals state state := by
    rw [mapRange_zero]
    exact ⟨built, .refl state⟩
  refine Ensures.pages (fun count final =>
    Built image contents next directory
      (FosKernel.mapRange entries first count frame perm) final ∧ SameGlobals state final)
    size start ?_
  rintro index middle inside ⟨builtMiddle, same⟩
  rw [pageAddress inside addresses, pageAddress inside physical]
  refine (builtMiddle.mapPage (tables index inside) heap upper _ perm).mono ?_ fun _ => id
  rintro _ final ⟨builtFinal, sameFinal, -⟩
  rw [mapRange_succ] at builtFinal
  exact ⟨builtFinal, same.trans sameFinal⟩

theorem isTable_add {index : Nat} (bound : index < 1024) (noSelfMap : ¬isSelfMap index) :
    IsTable (addDirectoryEntry directory index next) index := by
  refine ⟨bound, noSelfMap, ?_⟩
  rw [addDirectoryEntry, Function.update_self]
  apply ne_zero_of_present
  rw [hasPerm_present, getLsbD_constructEntry _ _ (by decide)]
  decide

/-- A range of one table, which does not exist yet. -/
theorem Built.mapRangeNew (built : Built image contents next directory entries state)
    (first size frame : Nat) (perm : Word) (nonempty : 0 < size)
    (oneTable : ∀ index, index * 4096 < size → (first + index) / 1024 = first / 1024)
    (bound : first / 1024 < 1024) (noSelfMap : ¬isSelfMap (first / 1024))
    (absent : directory (first / 1024) = 0)
    (heap : next < 0x6000) (upper : next ≤ last)
    (addresses : first * 4096 + size ≤ 2 ^ 32) (physical : frame * 4096 + size ≤ 2 ^ 32) :
    Ensures (bootMapRange image numberOfFrames (kernelBase + image.directoryFrame * 4096)
        (first * 4096) size (frame * 4096) perm) state
      (fun _ final =>
        Built image contents (next + 1) (addDirectoryEntry directory (first / 1024) next)
          (FosKernel.mapRange (addTable contents entries (first / 1024) next) first
            ((size + 4095) / 4096) frame perm) final ∧
        SameGlobals state final ∧ (4096 < size → next < numberOfFrames))
      (fun _ => numberOfFrames ≤ last) := by
  have isTable : ∀ index, index * 4096 < size →
      IsTable (addDirectoryEntry directory (first / 1024) next) ((first + index) / 1024) := by
    intro index inside
    rw [oneTable index inside]
    exact isTable_add bound noSelfMap
  have frameNew : frameOf (addDirectoryEntry directory (first / 1024) next (first / 1024)) =
      next := by
    rw [addDirectoryEntry, Function.update_self, frameOf_constructEntry (by omega) (by decide)]
  have small : next < 2 ^ 20 := by omega
  have firstTable : IsTable (addDirectoryEntry directory (first / 1024) next) (first / 1024) :=
    isTable_add bound noSelfMap
  let invariant (count : Nat) (final : BootState) : Prop :=
    (count = 0 ∧ final = state) ∨
    (Built image contents (next + 1) (addDirectoryEntry directory (first / 1024) next)
        (FosKernel.mapRange (addTable contents entries (first / 1024) next) first count frame
          perm) final ∧
      SameGlobals state final ∧ (1 < count → next < numberOfFrames))
  have whole : Ensures (bootMapRange image numberOfFrames
      (kernelBase + image.directoryFrame * 4096) (first * 4096) size (frame * 4096) perm) state
      (fun _ => invariant ((size + 4095) / 4096)) (fun _ => numberOfFrames ≤ last) := by
    refine Ensures.pages invariant size (.inl ⟨rfl, rfl⟩) ?_
    intro index middle inside holds
    rw [pageAddress inside addresses, pageAddress inside physical]
    rcases holds with ⟨rfl, rfl⟩ | ⟨builtMiddle, same, -⟩
    · rw [Nat.add_zero, Nat.add_zero]
      unfold bootMapPage
      have pdxFirst := pdx_page first
      refine .bind (built.getAbsent (by rw [pdxFirst]; exact bound)
        (by rw [pdxFirst]; exact absent) heap) ?_
      rintro _ final ⟨rfl, rfl⟩
      have mapped := (built.newTable (first / 1024) small).mapEntry firstTable frame perm
      rw [pdxFirst, frameNew, mapRange_one] at mapped
      rw [pdxFirst]
      exact .inr ⟨mapped, ⟨rfl, rfl, rfl, rfl⟩, fun more => absurd more (by decide)⟩
    · refine (builtMiddle.mapPage (isTable index inside) (by omega) (by omega) _ perm).mono ?_
        fun _ => id
      rintro _ final ⟨builtFinal, sameFinal, found⟩
      rw [mapRange_succ] at builtFinal
      rw [oneTable index inside, frameNew] at found
      exact .inr ⟨builtFinal, same.trans sameFinal, fun _ => found⟩
  refine whole.mono ?_ fun _ => id
  rintro _ final (⟨empty, -⟩ | ⟨builtFinal, same, found⟩)
  · omega
  · exact ⟨builtFinal, same, fun more => found (by omega)⟩

/-- The page tables of `count` directory indices, in consecutive frames. -/
def addTables (contents : Nat → Nat → Word) (entries : Nat → Word) (first count frame page : Nat) :
    Word :=
  if first ≤ page / 1024 ∧ page / 1024 < first + count then
    contents (frame + (page / 1024 - first)) (page % 1024)
  else entries page

def addDirectoryEntries (directory : Nat → Word) (first count frame index : Nat) : Word :=
  if first ≤ index ∧ index < first + count then
    constructEntry (frame + (index - first)) (permPresent ||| permWriteable)
  else directory index

theorem addTable_addTables (contents : Nat → Nat → Word) (entries : Nat → Word)
    (first count frame : Nat) :
    addTable contents (addTables contents entries first count frame) (first + count)
        (frame + count) =
      addTables contents entries first (count + 1) frame := by
  funext page
  simp only [addTable, addTables]
  by_cases same : page / 1024 = first + count
  · rw [if_pos same, if_pos (by omega), same, Nat.add_sub_cancel_left]
  · rw [if_neg same]
    exact if_congr (by omega) rfl rfl

theorem addDirectoryEntry_entries (directory : Nat → Word) (first count frame : Nat) :
    addDirectoryEntry (addDirectoryEntries directory first count frame) (first + count)
        (frame + count) =
      addDirectoryEntries directory first (count + 1) frame := by
  funext index
  simp only [addDirectoryEntry]
  by_cases same : index = first + count
  · rw [same, Function.update_self, addDirectoryEntries, if_pos (by omega),
      Nat.add_sub_cancel_left]
  · rw [Function.update_of_ne same, addDirectoryEntries, addDirectoryEntries]
    exact if_congr (by omega) rfl rfl

/-- The loop that allocates tables for consecutive directory indices. -/
theorem Built.allocateTables (built : Built image contents next directory entries state)
    {first count : Nat} (bound : first + count ≤ 1024)
    (absent : ∀ index, first ≤ index → index < first + count → directory index = 0)
    (heap : next + count ≤ 0x6000) :
    Ensures ((List.range' first count).forM fun index => do
        let _ ← bootGetPageTable image numberOfFrames
          (kernelBase + image.directoryFrame * 4096) (index * 1024 * 4096) true) state
      (fun _ final =>
        Built image contents (next + count) (addDirectoryEntries directory first count next)
          (addTables contents entries first count next) final ∧
        SameGlobals state final)
      (fun _ => numberOfFrames ≤ last) := by
  have noTables : addTables contents entries first 0 next = entries := by
    funext page
    exact if_neg (by omega)
  have noEntries : addDirectoryEntries directory first 0 next = directory := by
    funext index
    exact if_neg (by omega)
  let invariant (index : Nat) (final : BootState) : Prop :=
    Built image contents (next + (index - first))
        (addDirectoryEntries directory first (index - first) next)
        (addTables contents entries first (index - first) next) final ∧
      SameGlobals state final
  have start : invariant first state := by
    simp only [invariant, Nat.sub_self, noTables, noEntries]
    exact ⟨built, .refl state⟩
  suffices whole : Ensures ((List.range' first count).forM fun index => do
        let _ ← bootGetPageTable image numberOfFrames
          (kernelBase + image.directoryFrame * 4096) (index * 1024 * 4096) true) state
      (fun _ => invariant (first + count)) (fun _ => numberOfFrames ≤ last) by
    simpa only [invariant, Nat.add_sub_cancel_left] using whole
  refine .counted invariant count first start ?_
  rintro index middle lower upper ⟨builtMiddle, same⟩
  have pdxIndex : pdx (index * 1024 * 4096) = index := by
    rw [pdx_page, Nat.mul_div_cancel _ (by decide)]
  have none : addDirectoryEntries directory first (index - first) next index = 0 := by
    rw [addDirectoryEntries, if_neg (by omega)]
    exact absent index lower upper
  refine .bind (builtMiddle.getAbsent (by rw [pdxIndex]; omega) (by rw [pdxIndex]; exact none)
    (by omega)) ?_
  rintro _ final ⟨-, rfl⟩
  have added := builtMiddle.newTable index (by omega)
  have steps : index + 1 - first = index - first + 1 := by omega
  rw [pdxIndex]
  refine .pure ?_
  simp only [invariant]
  rw [steps, ← addTable_addTables, ← addDirectoryEntry_entries,
    show first + (index - first) = index by omega, ← Nat.add_assoc]
  exact ⟨added, same.trans ⟨rfl, rfl, rfl, rfl⟩⟩

end Loops

/-! ## The whole function -/

/-- The pages of `frames_info`, whose size has 32 bits. -/
def framesInfoPages (numberOfFrames : Nat) : Nat :=
  (numberOfFrames * sizeofFrameInfo % 2 ^ 32 + 4095) / 4096

namespace KernelImage

variable (image : KernelImage) (numberOfFrames : Nat)

def stackFrame : Nat := staticFrame image.ptrStackBottom

/-- The frames before `envs`: the directory, 65 page tables, `frames_info` and
`disk_frames_info`. -/
def envsFrame : Nat := image.directoryFrame + 66 + framesInfoPages numberOfFrames + 780

/-- The page table of `UENVS` comes last. -/
def envsTable : Nat := image.envsFrame numberOfFrames + 256

/-- The frames up to the final `ptr_free_mem`. -/
def kernelFrames : Nat := image.envsTable numberOfFrames + 1

def tableFrame (index : Nat) : Nat :=
  if index = pdx userLimit then image.directoryFrame + 1
  else if index = pdx userTop then image.envsTable numberOfFrames
  else image.directoryFrame + 2 + (index - pdx kernelBase)

/-- The entries that `boot_map_range` writes. -/
def mappedEntry (page : Nat) : Option Word :=
  if ppn kernelBase ≤ page ∧ page < ppn kernelBase + image.kernelFrames numberOfFrames then
    some (constructEntry (page - ppn kernelBase) (permWriteable ||| permPresent))
  else if ppn userTop ≤ page ∧ page < ppn userTop + 256 then
    some (constructEntry (image.envsFrame numberOfFrames + (page - ppn userTop))
      (permUser ||| permPresent))
  else if 0xEFBF8 ≤ page ∧ page < 0xEFBF8 + 8 then
    some (constructEntry (image.stackFrame + (page - 0xEFBF8)) (permWriteable ||| permPresent))
  else none

/-- The entry of a page in its boot table. -/
def tableEntry (contents : Nat → Nat → Word) (page : Nat) : Word :=
  (image.mappedEntry numberOfFrames page).getD
    (contents (image.tableFrame numberOfFrames (page / 1024)) (page % 1024))

def directoryEntry (index : Nat) : Word :=
  if index = 0x3BF then
    constructEntry image.directoryFrame (permPresent ||| permWriteable)
  else if index = 0x3BD then
    constructEntry image.directoryFrame (permUser ||| permPresent)
  else if index = pdx userTop then
    constructEntry (image.envsTable numberOfFrames) (permPresent ||| permWriteable ||| permUser)
  else if hasBootTable index then
    constructEntry (image.tableFrame numberOfFrames index) (permPresent ||| permWriteable)
  else 0

end KernelImage

section Whole

variable {image : KernelImage} {contents : Nat → Nat → Word} {numberOfFrames : Nat}

theorem directoryFrame_address (heap : image.directoryFrame < 0x6000) :
    (image.endOfKernel + (4096 - 1)) % 2 ^ 32 -
        (image.endOfKernel + (4096 - 1)) % 2 ^ 32 % 4096 =
      kernelBase + image.directoryFrame * 4096 := by
  have lower := image.stackLower
  have upper := image.stackUpper
  simp only [KernelImage.directoryFrame, ppn, kernelBase] at *
  omega

/-- The first allocation is the directory. -/
theorem allocateDirectory (heap : image.directoryFrame < 0x6000) :
    bootAllocateSpace image 4096 4096 (BootState.start contents) =
      .ok (kernelBase + image.directoryFrame * 4096,
        (BootState.start contents).allocated (kernelBase + image.directoryFrame * 4096)
          4096) := by
  have rounded := directoryFrame_address heap
  have sum : (kernelBase + image.directoryFrame * 4096 + 4096) % 2 ^ 32 =
      kernelBase + image.directoryFrame * 4096 + 4096 :=
    Nat.mod_eq_of_lt (by simp only [kernelBase]; omega)
  unfold bootAllocateSpace
  simp only [bind, StateT.bind, get, getThe, MonadStateOf.get, StateT.get, pure, Except.bind,
    Except.pure, ↓reduceIte, rounded, sum, modify, modifyGet,
    MonadStateOf.modifyGet, StateT.modifyGet, BootState.allocated, BootState.start]
  rfl

theorem built_directory (physical : Nat) :
    Built image contents (image.directoryFrame + 1) (fun _ => 0) (fun _ => 0)
      { ({ (BootState.start contents).allocated (kernelBase + image.directoryFrame * 4096)
            4096 with
          ptrPageDirectory := kernelBase + image.directoryFrame * 4096 } : BootState).clear
          (kernelBase + image.directoryFrame * 4096) 4096 with
        physPageDirectory := physical } := by
  have noTable : ∀ index, ¬IsTable (fun _ => 0) index := fun _ isTable => isTable.nonzero rfl
  constructor
  case pointer => rfl
  case used =>
    simp only [BootState.clear, BootState.allocated]
    omega
  case lower =>
    simp only [BootState.clear, BootState.allocated]
    omega
  case upper =>
    simp only [BootState.clear, BootState.allocated]
    omega
  case after => omega
  case directoryEntry =>
    intro index bound
    exact if_pos (by omega)
  case tableLower => exact fun index isTable => (noTable index isTable).elim
  case tableUpper => exact fun index isTable => (noTable index isTable).elim
  case apart => exact fun left _ isTable => (noTable left isTable).elim
  case entry => exact fun page isTable => (noTable _ isTable).elim
  case fresh =>
    intro frame unused
    funext index
    exact BootState.clear_memory (.inr (by omega))
  case blocks =>
    exact List.pairwise_singleton _ _
  case inside =>
    intro block member
    rw [List.mem_singleton.mp member]
    refine ⟨?_, Nat.le_refl _⟩
    simp only [KernelImage.directoryFrame, ppn]
    omega

theorem Built.withGlobals {next : Nat} {directory entries : Nat → Word} {state : BootState}
    (built : Built image contents next directory entries state)
    (framesInfo diskFramesInfo envs : Nat) :
    Built image contents next directory entries
      { state with framesInfo, diskFramesInfo, envs } :=
  ⟨built.pointer, built.used, built.lower, built.upper, built.after, built.directoryEntry,
    built.tableLower, built.tableUpper, built.apart, built.entry, built.fresh, built.blocks,
    built.inside⟩

/-- What `initialize_kernel_VM` leaves. -/
structure Finished (image : KernelImage) (contents : Nat → Nat → Word) (numberOfFrames : Nat)
    (final : BootState) : Prop where
  built : Built image contents (image.kernelFrames numberOfFrames)
    (image.directoryEntry numberOfFrames) (image.tableEntry numberOfFrames contents) final
  envs : final.envs = kernelBase + image.envsFrame numberOfFrames * 4096
  physical : image.envsTable numberOfFrames < numberOfFrames

/-- The self maps `VPT` and `UVPT`. -/
def addSelfMaps (directory : Nat → Word) (frame : Nat) : Nat → Word :=
  Function.update
    (Function.update directory 0x3BF (constructEntry frame (permPresent ||| permWriteable)))
    0x3BD (constructEntry frame (permUser ||| permPresent))

theorem Built.setupListing {next : Nat} {directory entries : Nat → Word} {state : BootState}
    {raised : Stop → Prop} (built : Built image contents next directory entries state) :
    Ensures setupListingToAllPageTablesEntries state
      (fun _ final =>
        Built image contents next (addSelfMaps directory image.directoryFrame) entries final ∧
        SameGlobals state final)
      raised := by
  have vpt := built.setDirectory 0x3BF
    (constructEntry image.directoryFrame (permPresent ||| permWriteable)) (.inl (by decide))
  have uvpt := vpt.setDirectory 0x3BD
    (constructEntry image.directoryFrame (permUser ||| permPresent)) (.inl (by decide))
  unfold setupListingToAllPageTablesEntries
  refine .bind_get ?_
  rw [built.pointer]
  refine .bind (staticKernelPhysicalAddress_ensures image.directoryFrame) ?_
  rintro _ _ ⟨rfl, rfl⟩
  refine .bind_modify (.bind (staticKernelPhysicalAddress_ensures image.directoryFrame) ?_)
  rintro _ _ ⟨rfl, rfl⟩
  rw [BitVec.or_assoc]
  exact ⟨uvpt, rfl, rfl, rfl, rfl⟩

/-- Only the entries of page tables matter. -/
theorem Built.congr {next : Nat} {directory entries other : Nat → Word} {state : BootState}
    (built : Built image contents next directory entries state)
    (same : ∀ page, IsTable directory (page / 1024) → entries page = other page) :
    Built image contents next directory other state :=
  ⟨built.pointer, built.used, built.lower, built.upper, built.after, built.directoryEntry,
    built.tableLower, built.tableUpper, built.apart,
    fun page isTable => (built.entry page isTable).trans (same page isTable), built.fresh,
    built.blocks, built.inside⟩

/-- The directory after the stack, the kernel tables, the self maps and `UENVS`. -/
theorem directoryEntry_eq :
    Function.update
        (addDirectoryEntry
          (addSelfMaps
            (addDirectoryEntries
              (addDirectoryEntry (fun _ => 0) (pdx userLimit) (image.directoryFrame + 1))
              (pdx kernelBase) 64 (image.directoryFrame + 1 + 1))
            image.directoryFrame)
          (pdx userTop) (image.envsTable numberOfFrames))
        (pdx userTop)
        (constructEntry (image.envsTable numberOfFrames) (permPresent ||| permWriteable) |||
          (permUser ||| permPresent &&& ~~~permWriteable)) =
      image.directoryEntry numberOfFrames := by
  have flags : constructEntry (image.envsTable numberOfFrames) (permPresent ||| permWriteable) |||
        (permUser ||| permPresent &&& ~~~permWriteable) =
      constructEntry (image.envsTable numberOfFrames)
        (permPresent ||| permWriteable ||| permUser) := by
    rw [constructEntry, constructEntry, BitVec.or_assoc]
    rfl
  rw [flags]
  funext index
  simp only [KernelImage.directoryEntry, addDirectoryEntry, addSelfMaps, addDirectoryEntries,
    hasBootTable, KernelImage.tableFrame, Function.update_apply]
  simp only [pdx, ppn, kernelBase, userTop, userLimit, Nat.reduceDiv]
  obtain rfl | rfl | rfl | rfl | kernel | other : index = 955 ∨ index = 957 ∨ index = 958 ∨
      index = 959 ∨ (960 ≤ index ∧ index < 1024) ∨ (index < 955 ∨ index = 956 ∨ 1024 ≤ index) := by
    omega
  · simp
  · simp
  · simp
  · simp
  · have far : ∀ special, special < 960 → index ≠ special := fun special small => by omega
    rw [if_neg (far 955 (by omega)), if_neg (far 955 (by omega)), if_neg (far 957 (by omega)),
      if_neg (far 959 (by omega)), if_pos (by omega), if_neg (far 959 (by omega)),
      if_neg (far 957 (by omega)), if_neg (far 955 (by omega)), if_pos (by omega),
      if_neg (far 958 (by omega)), if_neg (far 955 (by omega))]
  · have far : index ≠ 955 ∧ index ≠ 957 ∧ index ≠ 958 ∧ index ≠ 959 := by omega
    rw [if_neg far.1, if_neg far.1, if_neg far.2.1, if_neg far.2.2.2, if_neg (by omega),
      if_neg far.2.2.1, if_neg far.2.2.2, if_neg far.2.1, if_neg far.1, if_neg (by omega)]

/-- The page tables are those of the boot directory. -/
theorem isTable_iff {index : Nat} :
    IsTable (image.directoryEntry numberOfFrames) index ↔ hasBootTable index := by
  constructor
  · intro isTable
    by_contra none
    have noSelfMap := isTable.noSelfMap
    apply isTable.nonzero
    rw [KernelImage.directoryEntry, if_neg fun vpt => noSelfMap (.inl vpt),
      if_neg fun uvpt => noSelfMap (.inr uvpt), if_neg fun envs => none (.inl envs), if_neg none]
  · intro boot
    have index_ne : index ≠ 0x3BF ∧ index ≠ 0x3BD := by
      simp only [hasBootTable, pdx, ppn, kernelBase, userTop, userLimit] at boot
      omega
    have bound : index < 1024 := by
      simp only [hasBootTable, pdx, ppn, kernelBase, userTop, userLimit] at boot
      omega
    refine ⟨bound, fun selfMap => selfMap.elim index_ne.1 index_ne.2, ?_⟩
    apply ne_zero_of_present
    rw [KernelImage.directoryEntry, if_neg index_ne.1, if_neg index_ne.2, hasPerm_present]
    by_cases envs : index = pdx userTop
    · rw [if_pos envs, getLsbD_constructEntry _ _ (by decide)]
      decide
    · rw [if_neg envs, if_pos boot, getLsbD_constructEntry _ _ (by decide)]
      decide

/-- The entries after the stack, the kernel tables, `UENVS` and the kernel pages. -/
theorem tableEntry_eq {page : Nat}
    (isTable : IsTable (image.directoryEntry numberOfFrames) (page / 1024)) :
    mapRange
        (mapRange
          (addTable contents
            (addTables contents
              (mapRange
                (addTable contents (fun _ => 0) (pdx userLimit) (image.directoryFrame + 1))
                0xEFBF8 8 image.stackFrame permWriteable)
              (pdx kernelBase) 64 (image.directoryFrame + 1 + 1))
            (pdx userTop) (image.envsTable numberOfFrames))
          (ppn userTop) 256 (image.envsFrame numberOfFrames) permUser)
        (ppn kernelBase) (image.kernelFrames numberOfFrames) 0 permWriteable page =
      image.tableEntry numberOfFrames contents page := by
  have boot := isTable_iff.mp isTable
  simp only [mapRange, addTable, addTables, KernelImage.tableEntry, KernelImage.mappedEntry,
    KernelImage.tableFrame]
  simp only [hasBootTable, pdx, ppn, kernelBase, userTop, userLimit, Nat.reduceDiv] at boot ⊢
  by_cases kernel : 983040 ≤ page ∧ page < 983040 + image.kernelFrames numberOfFrames
  · rw [if_pos kernel, if_pos kernel, Nat.zero_add]
    rfl
  rw [if_neg kernel, if_neg kernel]
  by_cases envs : 977920 ≤ page ∧ page < 977920 + 256
  · rw [if_pos envs, if_pos envs]
    rfl
  rw [if_neg envs, if_neg envs]
  rcases boot with inEnvs | inStack | inKernel
  · rw [if_pos inEnvs, if_neg (by omega), if_neg (by omega), if_pos inEnvs]
    rfl
  · rw [if_neg (by omega), if_neg (by omega)]
    by_cases stack : 0xEFBF8 ≤ page ∧ page < 0xEFBF8 + 8
    · rw [if_pos stack, if_pos stack]
      rfl
    · rw [if_neg stack, if_neg stack, if_pos inStack, if_pos inStack]
      rfl
  · rw [if_neg (by omega), if_pos (by omega), if_neg (by omega), if_neg (by omega),
      if_neg (by omega)]
    rfl

theorem stackBottom_eq : image.ptrStackBottom = kernelBase + image.stackFrame * 4096 := by
  have aligned := image.stackAligned
  have lower := image.stackLower
  simp only [KernelImage.stackFrame, staticFrame, kernelBase] at *
  omega

theorem stackFrame_lt : image.stackFrame + 8 ≤ image.directoryFrame := by
  have lower := image.stackUpper
  rw [stackBottom_eq] at lower
  simp only [KernelImage.directoryFrame, ppn]
  omega

-- The elaborator would evaluate the program of a triple.
attribute [local irreducible] Ensures

theorem framesInfo_size (numberOfFrames : Nat) :
    numberOfFrames * sizeofFrameInfo % 2 ^ 32 ≤ framesInfoPages numberOfFrames * 4096 := by
  rw [framesInfoPages]
  omega

theorem envs_size : nenv * sizeofEnv = 1048248 := by decide

variable {next last : Nat} {directory entries : Nat → Word} {state : BootState}

theorem mapKernelStack_ensures (heap : image.directoryFrame + 1 < 0x6000)
    (upper : image.directoryFrame + 1 ≤ last) :
    Ensures (mapKernelStack image numberOfFrames) (BootState.start contents)
      (fun pointer final => pointer = kernelBase + image.directoryFrame * 4096 ∧
        Built image contents (image.directoryFrame + 1 + 1)
          (addDirectoryEntry (fun _ => 0) (pdx userLimit) (image.directoryFrame + 1))
          (mapRange
            (addTable contents (fun _ => 0) (pdx userLimit) (image.directoryFrame + 1))
            0xEFBF8 8 image.stackFrame permWriteable) final)
      (fun _ => numberOfFrames ≤ last) := by
  have stackFrame : image.stackFrame + 8 ≤ image.directoryFrame := stackFrame_lt
  unfold mapKernelStack
  have allocate : Ensures (bootAllocateSpace image 4096 4096) (BootState.start contents)
      (fun pointer middle => pointer = kernelBase + image.directoryFrame * 4096 ∧
        middle = (BootState.start contents).allocated
          (kernelBase + image.directoryFrame * 4096) 4096)
      (fun _ => numberOfFrames ≤ last) := by
    unfold Ensures
    rw [allocateDirectory (by omega)]
    exact ⟨rfl, rfl⟩
  refine .bind allocate ?_
  rintro _ _ ⟨rfl, rfl⟩
  refine .bind_modify (.bind_modify
    (.bind (staticKernelPhysicalAddress_ensures image.directoryFrame) ?_))
  rintro _ _ ⟨rfl, rfl⟩
  rw [stackBottom_eq]
  refine .bind_modify (.bind (staticKernelPhysicalAddress_ensures image.stackFrame) ?_)
  rintro _ _ ⟨rfl, rfl⟩
  have start : Built image contents (image.directoryFrame + 1) (fun _ => 0) (fun _ => 0) _ :=
    built_directory (image.directoryFrame * 4096)
  refine .bind (start.mapRangeNew 0xEFBF8 (8 * 4096) image.stackFrame permWriteable (by decide)
    (fun index inside => by omega) (by decide) (by decide) rfl heap upper (by decide)
    (by omega)) ?_
  rintro _ final ⟨built, -, -⟩
  exact .pure ⟨rfl, built⟩

theorem Built.allocateFramesInfo (built : Built image contents next directory entries state)
    {raised : Stop → Prop} (heap : next + framesInfoPages numberOfFrames + 780 ≤ 0x6000) :
    Ensures (FosKernel.allocateFramesInfo image numberOfFrames) state
      (fun _ final => Built image contents (next + framesInfoPages numberOfFrames + 780)
        directory entries final) raised := by
  have infoSize := framesInfo_size numberOfFrames
  have diskSize : pagesPerFile * sizeofFrameInfo = 780 * 4096 := by decide
  have diskPages : (pagesPerFile * sizeofFrameInfo + 4095) / 4096 = 780 := by decide
  unfold FosKernel.allocateFramesInfo
  refine .bind (built.allocate (by omega)) ?_
  rintro _ _ ⟨rfl, rfl⟩
  have info := (built.claim (numberOfFrames * sizeofFrameInfo % 2 ^ 32)).withGlobals
    (kernelBase + next * 4096) state.diskFramesInfo state.envs
  rw [← framesInfoPages] at info
  refine .bind_modify (.bind (info.allocate (by rw [diskSize]; omega)) ?_)
  rintro _ _ ⟨rfl, rfl⟩
  have disk := (info.claim (pagesPerFile * sizeofFrameInfo)).withGlobals
    (kernelBase + next * 4096)
    (kernelBase + (next + framesInfoPages numberOfFrames) * 4096) state.envs
  rw [diskPages] at disk
  exact .modify disk

theorem Built.mapEnvs (built : Built image contents next directory entries state)
    (absent : directory (pdx userTop) = 0) (heap : next + 256 < 0x6000)
    (upper : next + 256 ≤ last) :
    Ensures (FosKernel.mapEnvs image numberOfFrames (kernelBase + image.directoryFrame * 4096))
      state
      (fun _ final =>
        Built image contents (next + 256 + 1)
          (Function.update (addDirectoryEntry directory (pdx userTop) (next + 256))
            (pdx userTop)
            (constructEntry (next + 256) (permPresent ||| permWriteable) |||
              (permUser ||| permPresent &&& ~~~permWriteable)))
          (FosKernel.mapRange (addTable contents entries (pdx userTop) (next + 256))
            (ppn userTop) 256 next permUser) final ∧
        final.envs = kernelBase + next * 4096 ∧ next + 256 < numberOfFrames)
      (fun _ => numberOfFrames ≤ last) := by
  have size := envs_size
  have pages : (nenv * sizeofEnv + 4095) / 4096 = 256 := by decide
  unfold FosKernel.mapEnvs
  refine .bind (built.allocate (by rw [size]; omega)) ?_
  rintro _ _ ⟨rfl, rfl⟩
  have envs := (built.claim (nenv * sizeofEnv)).withGlobals state.framesInfo
    state.diskFramesInfo (kernelBase + next * 4096)
  rw [pages] at envs
  refine .bind_modify (.bind (staticKernelPhysicalAddress_ensures next) ?_)
  rintro _ _ ⟨rfl, rfl⟩
  refine .bind (envs.mapRangeNew (ppn userTop) (nenv * sizeofEnv) next permUser
    (by rw [size]; decide)
    (fun index inside => by rw [size] at inside; simp only [ppn, userTop]; omega)
    (by decide) (by decide) absent heap upper (by rw [size]; decide) (by rw [size]; omega)) ?_
  rintro _ final ⟨builtFinal, same, physical⟩
  have entry : addDirectoryEntry directory (ppn userTop / 1024) (next + 256) (pdx userTop) =
      constructEntry (next + 256) (permPresent ||| permWriteable) := Function.update_self ..
  have word := builtFinal.word_directory (show pdx userTop < 1024 by decide)
  rw [entry] at word
  refine .modify ⟨?_, same.envs, physical (by rw [size]; decide)⟩
  rw [word]
  refine builtFinal.setDirectory _ _ (.inr ⟨?_, ?_⟩)
  · rw [entry, constructEntry, BitVec.or_assoc]
    exact (frameOf_constructEntry (by omega) (by decide)).trans
      (frameOf_constructEntry (by omega) (by decide)).symm
  · rw [entry]
    apply ne_zero_of_present
    rw [hasPerm_present, getLsbD_constructEntry _ _ (by decide)]
    decide

/-- Everything before `check_boot_pgdir`. -/
theorem initializeKernelVM_ensures (heap : image.kernelFrames numberOfFrames ≤ 0x6000)
    {returned : Unit → BootState → Prop}
    (check : ∀ final, Finished image contents numberOfFrames final →
      Ensures (checkBootPgdir image numberOfFrames) final returned
        (fun _ => numberOfFrames ≤ image.envsTable numberOfFrames)) :
    Ensures (initializeKernelVM image numberOfFrames) (BootState.start contents) returned
      (fun _ => numberOfFrames ≤ image.envsTable numberOfFrames) := by
  have envsFrame : image.directoryFrame + 1 + 1 + 64 + framesInfoPages numberOfFrames + 780 =
      image.envsFrame numberOfFrames := by
    rw [KernelImage.envsFrame]
  have envsTable : image.envsTable numberOfFrames = image.envsFrame numberOfFrames + 256 := rfl
  have frames : image.kernelFrames numberOfFrames = image.envsTable numberOfFrames + 1 := rfl
  have kernelTables : ∀ index, pdx kernelBase ≤ index → index < pdx kernelBase + 64 →
      addDirectoryEntry (fun _ => 0) (pdx userLimit) (image.directoryFrame + 1) index = 0 := by
    intro index lower _
    have apart : pdx userLimit < pdx kernelBase := by decide
    rw [addDirectoryEntry, Function.update_of_ne (by omega)]
  have low : image.directoryFrame + 1 < 0x6000 := by omega
  have before : image.directoryFrame + 1 ≤ image.envsTable numberOfFrames := by omega
  unfold initializeKernelVM
  refine .bind (mapKernelStack_ensures low before) ?_
  rintro _ _ ⟨rfl, stack⟩
  refine .bind (stack.allocateTables (by decide) kernelTables (by omega)) ?_
  rintro _ _ ⟨tables, -⟩
  refine .bind (tables.allocateFramesInfo (by omega)) ?_
  rintro _ _ arrays
  refine .bind arrays.setupListing ?_
  rintro _ _ ⟨listing, -⟩
  rw [envsFrame] at listing
  refine .bind (listing.mapEnvs rfl (by omega) (by omega)) ?_
  rintro _ state ⟨envs, pointer, physical⟩
  rw [← envsTable, directoryEntry_eq, ← frames] at envs
  rw [← envsTable] at physical
  refine .bind_get ?_
  have used := envs.used
  have lower := envs.lower
  have upper := envs.upper
  have bytes : state.ptrFreeMem - kernelBase ≤ 0x6000 * 4096 := by
    omega
  have size : (state.ptrFreeMem - kernelBase + 4095) / 4096 =
      image.kernelFrames numberOfFrames := by
    omega
  have mapped : ∀ index, index * 4096 < state.ptrFreeMem - kernelBase →
      IsTable (image.directoryEntry numberOfFrames) ((ppn kernelBase + index) / 1024) := by
    intro index inside
    refine isTable_iff.mpr (.inr (.inr ?_))
    simp only [pdx, ppn, kernelBase] at *
    omega
  have physicalRange : 0 * 4096 + (state.ptrFreeMem - kernelBase) ≤ 2 ^ 32 := by
    rw [Nat.zero_mul, Nat.zero_add]
    exact Nat.le_trans bytes (by decide)
  have addresses : ppn kernelBase * 4096 + (state.ptrFreeMem - kernelBase) ≤ 2 ^ 32 := by
    have base : ppn kernelBase * 4096 = 0xF0000000 := by decide
    rw [base]
    omega
  refine .bind (envs.mapRange (ppn kernelBase) (state.ptrFreeMem - kernelBase) 0 permWriteable
    mapped heap (Nat.le_of_eq frames) addresses physicalRange) ?_
  rintro _ final ⟨built, same⟩
  rw [size] at built
  exact check final ⟨built.congr fun page isTable => tableEntry_eq isTable,
    same.envs.trans pointer, physical⟩

/-! ## The check -/

theorem extract_constructEntry (frame : Nat) {perm : Word} (low : Low perm) :
    constructEntry frame perm &&& ~~~0xFFF#32 = BitVec.ofNat 32 (frame * 4096) := by
  apply BitVec.eq_of_getLsbD_eq
  intro bit bound
  rw [BitVec.getLsbD_and, BitVec.getLsbD_not, constructEntry, BitVec.getLsbD_or]
  simp only [bound, decide_true, Bool.true_and]
  by_cases high : 12 ≤ bit
  · have mask : (0xFFF#32).getLsbD bit = false :=
      Low.getLsbD (by decide : Low 0xFFF#32) high
    rw [low.getLsbD high, mask, Bool.or_false, Bool.not_false, Bool.and_true]
  · have mask : ∀ bit, bit < 12 → (0xFFF#32).getLsbD bit = true := by decide
    have clear : (BitVec.ofNat 32 (frame * 4096)).getLsbD bit = false := by
      rw [BitVec.getLsbD_ofNat, show frame * 4096 = frame * 2 ^ 12 from rfl,
        Nat.testBit_mul_two_pow]
      simp [high]
    rw [mask bit (by omega), clear, Bool.not_true, Bool.and_false]

variable {raised : Stop → Prop}

theorem assert_ensures {condition : Prop} [Decidable condition] (holds : condition)
    (text : String) :
    Ensures (assert (decide condition) text) state (fun _ final => final = state) raised := by
  unfold assert
  rw [decide_eq_true holds, if_neg (by decide)]
  exact .pure rfl

theorem directoryEntry_present {index : Nat} (boot : hasBootTable index) :
    hasPerm (image.directoryEntry numberOfFrames index) permPresent = true := by
  have noSelfMap : IsTable (image.directoryEntry numberOfFrames) index := isTable_iff.mpr boot
  rw [KernelImage.directoryEntry, if_neg fun vpt => noSelfMap.noSelfMap (.inl vpt),
    if_neg fun uvpt => noSelfMap.noSelfMap (.inr uvpt), hasPerm_present]
  by_cases envs : index = pdx userTop
  · rw [if_pos envs, getLsbD_constructEntry _ _ (by decide)]
    decide
  · rw [if_neg envs, if_pos boot, getLsbD_constructEntry _ _ (by decide)]
    decide

/-- `check_va2pa` finds the frame of a mapped page. -/
theorem Finished.checkVa2pa (finished : Finished image contents numberOfFrames state)
    (heap : image.kernelFrames numberOfFrames ≤ 0x6000) {page frame : Nat} {perm : Word}
    (boot : hasBootTable (page / 1024)) (low : Low perm)
    (mapped : image.tableEntry numberOfFrames contents page =
      constructEntry frame (perm ||| permPresent)) :
    Ensures (FosKernel.checkVa2pa numberOfFrames (kernelBase + image.directoryFrame * 4096)
        (page * 4096)) state
      (fun value final => value = BitVec.ofNat 32 (frame * 4096) ∧ final = state)
      (fun _ => numberOfFrames ≤ image.envsTable numberOfFrames) := by
  have frames : image.kernelFrames numberOfFrames = image.envsTable numberOfFrames + 1 := rfl
  have isTable : IsTable (image.directoryEntry numberOfFrames) (page / 1024) :=
    isTable_iff.mpr boot
  have upper := finished.built.tableUpper _ isTable
  have entry := finished.built.entry page isTable
  have present : hasPerm (constructEntry frame (perm ||| permPresent)) permPresent = true := by
    rw [hasPerm_present, getLsbD_constructEntry _ _ (by decide), BitVec.getLsbD_or,
      show permPresent.getLsbD 0 = true by decide, Bool.or_true]
  rw [mapped] at entry
  unfold FosKernel.checkVa2pa
  refine .bind_get ?_
  rw [pdx_page, finished.built.word_directory isTable.bound]
  dsimp only
  rw [directoryEntry_present boot, if_neg (by decide)]
  refine .bind (staticKernelVirtualAddress_ensures (by omega) (by omega)) ?_
  rintro _ final ⟨rfl, rfl, -⟩
  refine .bind_get ?_
  rw [ptx_page, BootState.word, staticFrame_base, entry, present, if_neg (by decide)]
  exact .pure ⟨extract_constructEntry frame (low.or (by decide)), rfl⟩

/-- A loop of checks changes nothing. -/
theorem checkRange {size : Nat} {body : Nat → Boot Unit}
    (checks : ∀ index, index * 4096 < size →
      Ensures (body (index * 4096)) state (fun _ final => final = state) raised) :
    Ensures ((pageRange 0 size).forM body) state (fun _ final => final = state) raised := by
  refine Ensures.pages (fun _ final => final = state) size rfl ?_
  rintro index final inside rfl
  exact checks index inside

theorem directoryEntry_nonzero {index : Nat} (entry : isSelfMap index ∨ hasBootTable index) :
    image.directoryEntry numberOfFrames index ≠ 0 := by
  rcases entry with (rfl | rfl) | boot
  · apply ne_zero_of_present
    rw [KernelImage.directoryEntry, if_pos rfl, hasPerm_present,
      getLsbD_constructEntry _ _ (by decide)]
    decide
  · apply ne_zero_of_present
    rw [KernelImage.directoryEntry, if_neg (by decide), if_pos rfl, hasPerm_present,
      getLsbD_constructEntry _ _ (by decide)]
    decide
  · exact ne_zero_of_present (directoryEntry_present boot)

theorem directoryEntry_zero {index : Nat} (selfMap : ¬isSelfMap index)
    (boot : ¬hasBootTable index) : image.directoryEntry numberOfFrames index = 0 := by
  rw [KernelImage.directoryEntry, if_neg fun vpt => selfMap (.inl vpt),
    if_neg fun uvpt => selfMap (.inr uvpt), if_neg fun envs => boot (.inl envs), if_neg boot]

theorem Finished.checkDirectoryEntry (finished : Finished image contents numberOfFrames state)
    {index : Nat} (bound : index < 1024) :
    Ensures (FosKernel.checkDirectoryEntry (kernelBase + image.directoryFrame * 4096) index)
      state (fun _ final => final = state) raised := by
  unfold FosKernel.checkDirectoryEntry
  refine .bind_get ?_
  rw [finished.built.word_directory bound]
  dsimp only
  refine .ite (fun special => assert_ensures (directoryEntry_nonzero ?_) _) fun ordinary =>
    .ite (fun kernel => assert_ensures (directoryEntry_nonzero (.inr (.inr (.inr
      ⟨kernel, bound⟩)))) _) fun user => assert_ensures (directoryEntry_zero ?_ ?_) _
  · rcases special with vpt | uvpt | stack | envs
    · exact .inl (.inl vpt)
    · exact .inl (.inr uvpt)
    · exact .inr (.inr (.inl stack))
    · exact .inr (.inl envs)
  · rintro (vpt | uvpt)
    · exact ordinary (.inl vpt)
    · exact ordinary (.inr (.inl uvpt))
  · rintro (envs | stack | kernel)
    · exact ordinary (.inr (.inr (.inr envs)))
    · exact ordinary (.inr (.inr (.inl stack)))
    · exact user kernel.1

/-- Every assertion of `check_boot_pgdir` holds. -/
theorem Finished.checkBootPgdir (finished : Finished image contents numberOfFrames state)
    (heap : image.kernelFrames numberOfFrames ≤ 0x6000) :
    Ensures (FosKernel.checkBootPgdir image numberOfFrames) state (fun _ final => final = state)
      (fun _ => numberOfFrames ≤ image.envsTable numberOfFrames) := by
  unfold FosKernel.checkBootPgdir
  refine .bind_get (.bind_get ?_)
  rw [finished.built.pointer]
  have kernel : ∀ index, index * 4096 < state.ptrFreeMem - kernelBase →
      image.tableEntry numberOfFrames contents (ppn kernelBase + index) =
        constructEntry index (permWriteable ||| permPresent) := by
    intro index inside
    have lower := finished.built.lower
    rw [KernelImage.tableEntry, KernelImage.mappedEntry, if_pos (by omega),
      Nat.add_sub_cancel_left]
    rfl
  have stack : ∀ index, index < 8 →
      image.tableEntry numberOfFrames contents (0xEFBF8 + index) =
        constructEntry (image.stackFrame + index) (permWriteable ||| permPresent) := by
    intro index inside
    rw [KernelImage.tableEntry, KernelImage.mappedEntry,
      if_neg (by simp only [ppn, kernelBase]; omega),
      if_neg (by simp only [ppn, userTop]; omega), if_pos (by omega), Nat.add_sub_cancel_left]
    rfl
  refine .bind (checkRange ?_) ?_
  · intro index inside
    have lower := finished.built.lower
    have boot : hasBootTable ((ppn kernelBase + index) / 1024) := by
      have bound : index < 0x6000 := by omega
      simp only [hasBootTable, pdx, ppn, kernelBase]
      omega
    have address : kernelBase + index * 4096 = (ppn kernelBase + index) * 4096 := by
      rw [Nat.add_mul]
      rfl
    rw [address]
    refine .bind (finished.checkVa2pa heap boot (by decide) (kernel index inside)) ?_
    rintro _ final ⟨rfl, rfl⟩
    exact assert_ensures rfl _
  intro _ middle same
  rw [same]
  refine .bind (checkRange ?_) ?_
  · intro index inside
    have small : index < 8 := by omega
    have boot : hasBootTable ((0xEFBF8 + index) / 1024) := by
      simp only [hasBootTable, pdx, ppn, userLimit]
      omega
    have address : 0xEFBF8000 + index * 4096 = (0xEFBF8 + index) * 4096 := by
      omega
    rw [address, stackBottom_eq]
    refine .bind (finished.checkVa2pa heap boot (by decide) (stack index small)) ?_
    rintro _ final ⟨rfl, rfl⟩
    refine .bind (staticKernelPhysicalAddress_ensures image.stackFrame) ?_
    rintro _ _ ⟨rfl, rfl⟩
    exact assert_ensures (by rw [Nat.add_mul]) _
  intro _ middle same
  rw [same, List.range_eq_range']
  refine Ensures.counted (fun _ final => final = state) 1024 0 rfl ?_
  rintro index final - bound rfl
  exact finished.checkDirectoryEntry (by omega)

end Whole

end FosKernel
