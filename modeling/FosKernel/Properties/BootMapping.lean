import FosKernel.Refinement.KernelVM

/-! # The boot mapping

What the MMU finds through the kernel page directory after `initialize_kernel_VM`, and
how far it depends on the memory that the page tables were taken from.
-/

namespace FosKernel

/-- A page as the MMU maps it: both levels have to allow an access. -/
structure Translation where
  frame : Nat
  writeable : Bool
  user : Bool
  deriving DecidableEq

namespace BootState

variable (state : BootState)

/-- The page-table entry of a page; `none` if there is no page table. -/
def pageEntry (page : Nat) : Option Word :=
  let directoryEntry := state.word state.ptrPageDirectory (page / 1024)
  if hasPerm directoryEntry permPresent then
    some (state.memory (frameOf directoryEntry) (page % 1024))
  else none

def translation (page : Nat) : Option Translation :=
  let directoryEntry := state.word state.ptrPageDirectory (page / 1024)
  match state.pageEntry page with
  | some entry =>
      if hasPerm entry permPresent then
        some ⟨frameOf entry,
          hasPerm directoryEntry permWriteable && hasPerm entry permWriteable,
          hasPerm directoryEntry permUser && hasPerm entry permUser⟩
      else none
  | none => none

end BootState

namespace BootMapping

variable {image : KernelImage} {contents : Nat → Nat → Word} {numberOfFrames : Nat}
  {state : BootState}

/-! ## Entries after boot -/

theorem pageEntry_boot (finished : Finished image contents numberOfFrames state) {page : Nat}
    (boot : hasBootTable (page / 1024)) :
    state.pageEntry page = some (image.tableEntry numberOfFrames contents page) := by
  have isTable : IsTable (image.directoryEntry numberOfFrames) (page / 1024) :=
    isTable_iff.mpr boot
  rw [BootState.pageEntry, finished.built.pointer,
    finished.built.word_directory isTable.bound, directoryEntry_present boot, if_pos rfl,
    finished.built.entry page isTable]

theorem pageEntry_none (finished : Finished image contents numberOfFrames state) {page : Nat}
    (bound : page / 1024 < 1024) (selfMap : ¬isSelfMap (page / 1024))
    (boot : ¬hasBootTable (page / 1024)) : state.pageEntry page = none := by
  rw [BootState.pageEntry, finished.built.pointer, finished.built.word_directory bound,
    directoryEntry_zero selfMap boot, if_neg (by decide)]

/-- The directory lets the user into `UENVS` only. -/
theorem directoryEntry_perm (image : KernelImage) (numberOfFrames : Nat) {index : Nat}
    (boot : hasBootTable index) :
    hasPerm (image.directoryEntry numberOfFrames index) permWriteable = true ∧
      hasPerm (image.directoryEntry numberOfFrames index) permUser =
        decide (index = pdx userTop) := by
  have isTable : IsTable (image.directoryEntry numberOfFrames) index := isTable_iff.mpr boot
  rw [KernelImage.directoryEntry, if_neg fun vpt => isTable.noSelfMap (.inl vpt),
    if_neg fun uvpt => isTable.noSelfMap (.inr uvpt), hasPerm_writeable, hasPerm_user]
  by_cases envs : index = pdx userTop
  · rw [if_pos envs, getLsbD_constructEntry _ _ (by decide),
      getLsbD_constructEntry _ _ (by decide), decide_eq_true envs]
    decide
  · rw [if_neg envs, if_pos boot, getLsbD_constructEntry _ _ (by decide),
      getLsbD_constructEntry _ _ (by decide), decide_eq_false envs]
    decide

/-- What the MMU does with an entry of a boot table. -/
theorem translation_boot (finished : Finished image contents numberOfFrames state) {page : Nat}
    (boot : hasBootTable (page / 1024)) :
    state.translation page =
      let entry := image.tableEntry numberOfFrames contents page
      if hasPerm entry permPresent then
        some ⟨frameOf entry, hasPerm entry permWriteable,
          decide (page / 1024 = pdx userTop) && hasPerm entry permUser⟩
      else none := by
  have isTable : IsTable (image.directoryEntry numberOfFrames) (page / 1024) :=
    isTable_iff.mpr boot
  have perm := directoryEntry_perm image numberOfFrames boot
  rw [BootState.translation, pageEntry_boot finished boot, finished.built.pointer,
    finished.built.word_directory isTable.bound]
  simp only [perm.1, perm.2, Bool.true_and]

theorem translation_constructEntry (finished : Finished image contents numberOfFrames state)
    {page frame : Nat} {perm : Word} (boot : hasBootTable (page / 1024))
    (small : frame < 2 ^ 20) (low : Low perm)
    (mapped : image.tableEntry numberOfFrames contents page =
      constructEntry frame (perm ||| permPresent)) :
    state.translation page = some ⟨frame, perm.getLsbD 1,
      decide (page / 1024 = pdx userTop) && perm.getLsbD 2⟩ := by
  have present : (permPresent.getLsbD 0 = true ∧ permPresent.getLsbD 1 = false) ∧
      permPresent.getLsbD 2 = false := by decide
  rw [translation_boot finished boot, mapped]
  simp only [hasPerm_present, hasPerm_writeable, hasPerm_user]
  rw [frameOf_constructEntry small (low.or (by decide)),
    getLsbD_constructEntry _ _ (by decide), getLsbD_constructEntry _ _ (by decide),
    getLsbD_constructEntry _ _ (by decide)]
  simp only [BitVec.getLsbD_or, present, Bool.or_true, Bool.or_false, if_true]

/-! ## Exactness -/

/-- The kernel address space that boot promises. -/
structure Exact (image : KernelImage) (state : BootState) : Prop where
  blocks : state.blocks.Pairwise BootBlock.Apart
  inside : ∀ block, block ∈ state.blocks →
    image.endOfKernel ≤ block.start ∧ block.start + block.size ≤ state.ptrFreeMem
  kernel : ∀ page, ppn kernelBase ≤ page → page * 4096 < state.ptrFreeMem →
    state.translation page = some ⟨page - ppn kernelBase, true, false⟩
  stack : ∀ page, 0xEFBF8 ≤ page → page < 0xEFC00 →
    state.translation page =
      some ⟨staticFrame image.ptrStackBottom + (page - 0xEFBF8), true, false⟩
  envs : ∀ page, ppn userTop ≤ page → page * 4096 < userTop + nenv * sizeofEnv →
    state.translation page =
      some ⟨staticFrame state.envs + (page - ppn userTop), false, true⟩
  nothing : ∀ page, page < 2 ^ 20 → ¬isSelfMap (page / 1024) →
    ¬(ppn kernelBase ≤ page ∧ page * 4096 < state.ptrFreeMem) →
    ¬(0xEFBF8 ≤ page ∧ page < 0xEFC00) →
    ¬(ppn userTop ≤ page ∧ page * 4096 < userTop + nenv * sizeofEnv) →
    state.translation page = none

/-- The page tables lie above the kernel image. -/
theorem tableFrame_above (index offset : Nat) :
    image.endOfKernel ≤
      kernelBase + image.tableFrame numberOfFrames index * 4096 + offset * 4 := by
  have above : image.directoryFrame ≤ image.tableFrame numberOfFrames index := by
    rw [KernelImage.tableFrame, KernelImage.envsTable, KernelImage.envsFrame]
    split
    · omega
    · split <;> omega
  have lower : image.endOfKernel ≤ kernelBase + image.directoryFrame * 4096 := by
    simp only [KernelImage.directoryFrame, ppn]
    omega
  omega

theorem exact_of_finished (heap : image.kernelFrames numberOfFrames ≤ 0x6000)
    (finished : Finished image contents numberOfFrames state)
    (zero : ∀ frame index, index < 1024 →
      image.endOfKernel ≤ kernelBase + frame * 4096 + index * 4 → contents frame index = 0) :
    Exact image state := by
  have lower := finished.built.lower
  have upper := finished.built.upper
  have size := envs_size
  have frames : image.kernelFrames numberOfFrames = image.envsFrame numberOfFrames + 256 + 1 :=
    rfl
  have stackFrame : image.stackFrame + 8 ≤ image.directoryFrame := stackFrame_lt
  have directory : image.directoryFrame < image.envsFrame numberOfFrames := by
    rw [KernelImage.envsFrame]
    omega
  refine ⟨finished.built.blocks, finished.built.inside, ?_, ?_, ?_, ?_⟩
  · intro page start stop
    have inside : page - ppn kernelBase < 0x6000 := by
      simp only [ppn, kernelBase] at *
      omega
    have bound : page < ppn kernelBase + image.kernelFrames numberOfFrames := by
      simp only [ppn, kernelBase] at *
      omega
    have boot : hasBootTable (page / 1024) := by
      simp only [hasBootTable, pdx, ppn, kernelBase] at *
      omega
    have user : page / 1024 ≠ pdx userTop := by
      simp only [pdx, ppn, userTop, kernelBase] at *
      omega
    have mapped : image.tableEntry numberOfFrames contents page =
        constructEntry (page - ppn kernelBase) (permWriteable ||| permPresent) := by
      rw [KernelImage.tableEntry, KernelImage.mappedEntry, if_pos ⟨start, bound⟩]
      rfl
    rw [translation_constructEntry finished boot (by omega) (by decide) mapped,
      decide_eq_false user]
    rfl
  · intro page start stop
    have boot : hasBootTable (page / 1024) := by
      simp only [hasBootTable, pdx, ppn, userLimit]
      omega
    have user : page / 1024 ≠ pdx userTop := by
      simp only [pdx, ppn, userTop]
      omega
    have mapped : image.tableEntry numberOfFrames contents page =
        constructEntry (image.stackFrame + (page - 0xEFBF8)) (permWriteable ||| permPresent) := by
      rw [KernelImage.tableEntry, KernelImage.mappedEntry,
        if_neg (by simp only [ppn, kernelBase]; omega),
        if_neg (by simp only [ppn, userTop]; omega), if_pos (by omega)]
      rfl
    rw [translation_constructEntry finished boot (by omega) (by decide) mapped,
      decide_eq_false user]
    rfl
  · intro page start stop
    have inside : page < ppn userTop + 256 := by
      rw [size] at stop
      simp only [ppn, userTop] at *
      omega
    have user : page / 1024 = pdx userTop := by
      simp only [pdx, ppn, userTop] at *
      omega
    have mapped : image.tableEntry numberOfFrames contents page =
        constructEntry (image.envsFrame numberOfFrames + (page - ppn userTop))
          (permUser ||| permPresent) := by
      rw [KernelImage.tableEntry, KernelImage.mappedEntry,
        if_neg (by simp only [ppn, userTop, kernelBase] at *; omega), if_pos ⟨start, inside⟩]
      rfl
    rw [translation_constructEntry finished (.inl user) (by omega) (by decide) mapped,
      decide_eq_true user, finished.envs, staticFrame_base]
    rfl
  · intro page bound selfMap kernel stack envs
    by_cases boot : hasBootTable (page / 1024)
    · have unmapped : image.mappedEntry numberOfFrames page = none := by
        rw [size] at envs
        rw [KernelImage.mappedEntry, if_neg (by simp only [ppn, kernelBase] at *; omega),
          if_neg (by simp only [ppn, userTop] at *; omega), if_neg (by omega)]
      have empty : image.tableEntry numberOfFrames contents page = 0 := by
        rw [KernelImage.tableEntry, unmapped]
        exact zero _ _ (Nat.mod_lt _ (by decide)) (tableFrame_above _ _)
      rw [translation_boot finished boot, empty]
      rfl
    · rw [BootState.translation, pageEntry_none finished (by omega) selfMap boot]

-- The elaborator would evaluate the program of a triple.
attribute [local irreducible] Ensures

theorem check_returns (heap : image.kernelFrames numberOfFrames ≤ 0x6000)
    (finished : Finished image contents numberOfFrames state) :
    checkBootPgdir image numberOfFrames state = .ok ((), state) := by
  have physical := finished.physical
  have ensures : Ensures (checkBootPgdir image numberOfFrames) state
      (fun _ final => final = state) (fun _ => False) :=
    (finished.checkBootPgdir heap).mono (fun _ _ same => same) fun _ small => by omega
  rcases ensures.returns with ⟨_, final, returned, rfl⟩
  exact returned

theorem finished_ensures (heap : image.kernelFrames numberOfFrames ≤ 0x6000) :
    Ensures (initializeKernelVM image numberOfFrames) (BootState.start contents)
      (fun _ final => Finished image contents numberOfFrames final)
      (fun _ => numberOfFrames ≤ image.envsTable numberOfFrames) := by
  refine initializeKernelVM_ensures heap fun final finished => ?_
  refine (finished.checkBootPgdir heap).mono ?_ fun _ => id
  rintro _ _ rfl
  exact finished

theorem frames_le (fits : kernelBase + image.kernelFrames numberOfFrames * 4096 ≤
    kernelHeapStart) : image.kernelFrames numberOfFrames ≤ 0x6000 := by
  simp only [kernelBase, kernelHeapStart] at fits
  omega

/-- Enough memory lets the function return. -/
theorem boot_returns (contents : Nat → Nat → Word)
    (heap : image.kernelFrames numberOfFrames ≤ 0x6000)
    (physical : image.kernelFrames numberOfFrames ≤ numberOfFrames) :
    ∃ final, initializeKernelVM image numberOfFrames (BootState.start contents) =
      .ok ((), final) ∧ Finished image contents numberOfFrames final := by
  have frames : image.kernelFrames numberOfFrames = image.envsTable numberOfFrames + 1 := rfl
  have ensures : Ensures (initializeKernelVM image numberOfFrames) (BootState.start contents)
      (fun _ final => Finished image contents numberOfFrames final) (fun _ => False) :=
    (finished_ensures heap).mono (fun _ _ same => same) fun _ small => by omega
  rcases ensures.returns with ⟨_, final, returned, finished⟩
  exact ⟨final, returned, finished⟩

/-- `initialize_kernel_VM` returns when the memory holds the boot allocations, and then
the mapping is exact and passes the check. -/
theorem boot_mapping_exact {image : KernelImage} {contents : Nat → Nat → Word}
    {numberOfFrames : Nat}
    (fits : kernelBase + image.kernelFrames numberOfFrames * 4096 ≤ kernelHeapStart)
    (zero : ∀ frame index, index < 1024 →
      image.endOfKernel ≤ kernelBase + frame * 4096 + index * 4 → contents frame index = 0) :
    (image.kernelFrames numberOfFrames ≤ numberOfFrames →
      ∃ final, initializeKernelVM image numberOfFrames (BootState.start contents) =
        .ok ((), final)) ∧
    ∀ final, initializeKernelVM image numberOfFrames (BootState.start contents) =
        .ok ((), final) →
      Exact image final ∧ checkBootPgdir image numberOfFrames final = .ok ((), final) := by
  have heap := frames_le fits
  constructor
  · intro physical
    rcases boot_returns contents heap physical with ⟨final, returned, -⟩
    exact ⟨final, returned⟩
  · intro final returned
    have finished := (finished_ensures heap).of_ok returned
    exact ⟨exact_of_finished heap finished zero, check_returns heap finished⟩

def sampleImage : KernelImage where
  ptrStackBottom := 0xF0100000
  endOfKernel := 0xF0110000
  stackAligned := by decide
  stackLower := by decide
  stackUpper := by decide
  endBound := by decide

theorem boot_mapping_sample :
    ∃ final, initializeKernelVM sampleImage 8192 (BootState.start fun _ _ => 0) =
        .ok ((), final) ∧
      Exact sampleImage final ∧ checkBootPgdir sampleImage 8192 final = .ok ((), final) := by
  have exact := @boot_mapping_exact sampleImage (fun _ _ => 0) 8192 (by decide)
    fun _ _ _ _ => rfl
  rcases exact.1 (by decide) with ⟨final, returned⟩
  exact ⟨final, returned, exact.2 final returned⟩

/-! ## The layout of paging -/

section Bounds

variable (image : KernelImage) (numberOfFrames : Nat)

theorem extended_le : extendedFrame ≤ image.kernelFrames numberOfFrames := by
  have lower := image.stackLower
  have upper := image.stackUpper
  rw [KernelImage.kernelFrames, KernelImage.envsTable, KernelImage.envsFrame,
    KernelImage.directoryFrame]
  simp only [ppn, kernelBase, extendedFrame] at *
  omega

theorem directory_lt : image.directoryFrame < image.kernelFrames numberOfFrames := by
  rw [KernelImage.kernelFrames, KernelImage.envsTable, KernelImage.envsFrame]
  omega

theorem table_lt (index : Nat) :
    (if hasBootTable index then image.tableFrame numberOfFrames index else 0) <
      image.kernelFrames numberOfFrames := by
  split
  · next boot =>
      simp only [hasBootTable, pdx, ppn, kernelBase, userTop, userLimit] at boot
      simp only [KernelImage.tableFrame, KernelImage.kernelFrames, KernelImage.envsTable,
        KernelImage.envsFrame, pdx, ppn, kernelBase, userTop, userLimit]
      split
      · omega
      · split <;> omega
  · exact Nat.succ_pos _

theorem stack_le : image.stackFrame + 8 ≤ image.kernelFrames numberOfFrames := by
  have below : image.stackFrame + 8 ≤ image.directoryFrame := stackFrame_lt
  rw [KernelImage.kernelFrames, KernelImage.envsTable, KernelImage.envsFrame]
  omega

theorem envs_le :
    image.envsFrame numberOfFrames + 256 ≤ image.kernelFrames numberOfFrames := Nat.le_succ _

/-- The pages of the environments fit into one page table. -/
theorem envs_inTable : 256 ≤ 1024 := by decide

end Bounds

/-- The boot layout on which paging starts. -/
def layout (image : KernelImage) (numberOfFrames : Nat)
    (fits : kernelBase + image.kernelFrames numberOfFrames * 4096 ≤ kernelHeapStart)
    (holds : image.kernelFrames numberOfFrames ≤ numberOfFrames)
    (physical : numberOfFrames ≤ 2 ^ 20) : BootLayout where
  numberOfFrames := numberOfFrames
  kernelFrames := image.kernelFrames numberOfFrames
  directoryFrame := image.directoryFrame
  tableFrame index := if hasBootTable index then image.tableFrame numberOfFrames index else 0
  stackFrame := image.stackFrame
  envsFrame := image.envsFrame numberOfFrames
  envsPages := 256
  kernelLower := extended_le image numberOfFrames
  kernelUpper := holds
  belowHeap := fits
  physical := physical
  directoryBound := directory_lt image numberOfFrames
  tableBound := table_lt image numberOfFrames
  stackBound := stack_le image numberOfFrames
  envsBound := envs_le image numberOfFrames
  envsTable := envs_inTable

/-- `initialize_kernel_VM` leaves the directory and the tables of the layout. -/
theorem finished_layout
    {fits : kernelBase + image.kernelFrames numberOfFrames * 4096 ≤ kernelHeapStart}
    {holds : image.kernelFrames numberOfFrames ≤ numberOfFrames}
    {physical : numberOfFrames ≤ 2 ^ 20}
    (finished : Finished image contents numberOfFrames state)
    (zero : ∀ frame index, index < 1024 →
      image.endOfKernel ≤ kernelBase + frame * 4096 + index * 4 → contents frame index = 0) :
    (∀ index, index < 1024 → state.word state.ptrPageDirectory index =
      (layout image numberOfFrames fits holds physical).directory index) ∧
    ∀ page, hasBootTable (page / 1024) → state.pageEntry page =
      some ((layout image numberOfFrames fits holds physical).bootTables page) := by
  constructor
  · intro index bound
    rw [finished.built.pointer, finished.built.word_directory bound]
    simp only [KernelImage.directoryEntry, BootLayout.directory, layout]
    have table : hasBootTable (pdx userTop) := .inl rfl
    have envsTable : image.tableFrame numberOfFrames (pdx userTop) =
        image.envsTable numberOfFrames := rfl
    split
    · rfl
    split
    · rfl
    split
    · next envs => rw [envs, if_pos table, envsTable]
    split
    · rfl
    · rfl
  · intro page boot
    rw [pageEntry_boot finished boot, KernelImage.tableEntry, KernelImage.mappedEntry]
    have tables : (layout image numberOfFrames fits holds physical).bootTables page =
        if ppn kernelBase ≤ page ∧ page < ppn kernelBase + image.kernelFrames numberOfFrames then
          constructEntry (page - ppn kernelBase) (permWriteable ||| permPresent)
        else if 0xEFBF8 ≤ page ∧ page < 0xEFC00 then
          constructEntry (image.stackFrame + (page - 0xEFBF8)) (permWriteable ||| permPresent)
        else if ppn userTop ≤ page ∧ page < ppn userTop + 256 then
          constructEntry (image.envsFrame numberOfFrames + (page - ppn userTop))
            (permUser ||| permPresent)
        else 0 := rfl
    rw [tables]
    by_cases kernel : ppn kernelBase ≤ page ∧
        page < ppn kernelBase + image.kernelFrames numberOfFrames
    · rw [if_pos kernel, if_pos kernel]
      rfl
    rw [if_neg kernel, if_neg kernel]
    by_cases envs : ppn userTop ≤ page ∧ page < ppn userTop + 256
    · have stack : ¬(0xEFBF8 ≤ page ∧ page < 0xEFC00) := by
        simp only [ppn, userTop] at envs
        omega
      rw [if_pos envs, if_neg stack, if_pos envs]
      rfl
    · rw [if_neg envs]
      by_cases stack : 0xEFBF8 ≤ page ∧ page < 0xEFC00
      · rw [if_pos stack, if_pos stack]
        rfl
      · rw [if_neg stack, if_neg stack, if_neg envs]
        exact congrArg some (zero _ _ (Nat.mod_lt _ (by decide)) (tableFrame_above _ _))

/-! ## Two memories -/

/-- Boot from either memory leaves the same entries, and none for the heap. -/
def Independent (image : KernelImage) (numberOfFrames : Nat)
    (left right : Nat → Nat → Word) : Prop :=
  ∀ leftFinal rightFinal,
    initializeKernelVM image numberOfFrames (BootState.start left) = .ok ((), leftFinal) →
    initializeKernelVM image numberOfFrames (BootState.start right) = .ok ((), rightFinal) →
    (∀ page, page < 2 ^ 20 → ¬isSelfMap (page / 1024) →
      leftFinal.pageEntry page = rightFinal.pageEntry page) ∧
    ∀ page, ppn kernelHeapStart ≤ page → page < ppn kernelHeapMax →
      leftFinal.pageEntry page = some 0 ∧ rightFinal.pageEntry page = some 0

/-- The words of the page tables that `boot_map_range` does not write are the same in the
two memories, and zero for the heap. -/
structure AgreeOnTables (image : KernelImage) (numberOfFrames : Nat)
    (left right : Nat → Nat → Word) : Prop where
  same : ∀ page, hasBootTable (page / 1024) → image.mappedEntry numberOfFrames page = none →
    left (image.tableFrame numberOfFrames (page / 1024)) (page % 1024) =
      right (image.tableFrame numberOfFrames (page / 1024)) (page % 1024)
  heap : ∀ page, ppn kernelHeapStart ≤ page → page < ppn kernelHeapMax →
    left (image.tableFrame numberOfFrames (page / 1024)) (page % 1024) = 0

theorem heap_boot {page : Nat} (lower : ppn kernelHeapStart ≤ page)
    (upper : page < ppn kernelHeapMax) : hasBootTable (page / 1024) := by
  simp only [hasBootTable, pdx, ppn, kernelBase, kernelHeapStart, kernelHeapMax] at *
  omega

/-- The boot mapping ends below the heap. -/
theorem heap_unmapped (heap : image.kernelFrames numberOfFrames ≤ 0x6000) {page : Nat}
    (lower : ppn kernelHeapStart ≤ page) : image.mappedEntry numberOfFrames page = none := by
  simp only [ppn, kernelHeapStart] at lower
  rw [KernelImage.mappedEntry, if_neg (by simp only [ppn, kernelBase]; omega),
    if_neg (by simp only [ppn, userTop]; omega), if_neg (by omega)]

/-- The heap entries are what the memory held. -/
theorem heap_entry (heap : image.kernelFrames numberOfFrames ≤ 0x6000)
    (finished : Finished image contents numberOfFrames state) {page : Nat}
    (lower : ppn kernelHeapStart ≤ page) (upper : page < ppn kernelHeapMax) :
    state.pageEntry page =
      some (contents (image.tableFrame numberOfFrames (page / 1024)) (page % 1024)) := by
  rw [pageEntry_boot finished (heap_boot lower upper), KernelImage.tableEntry,
    heap_unmapped heap lower]
  rfl

/-- Boot does not depend on the memory exactly when the page tables come from words that
agree and, for the heap, are zero; a memory that is too small stops boot. -/
theorem independent_iff {image : KernelImage} {numberOfFrames : Nat}
    {left right : Nat → Nat → Word}
    (fits : kernelBase + image.kernelFrames numberOfFrames * 4096 ≤ kernelHeapStart) :
    Independent image numberOfFrames left right ↔
      numberOfFrames < image.kernelFrames numberOfFrames ∨
        AgreeOnTables image numberOfFrames left right := by
  have heap := frames_le fits
  have frames : image.kernelFrames numberOfFrames = image.envsTable numberOfFrames + 1 := rfl
  constructor
  · intro independent
    by_cases physical : image.kernelFrames numberOfFrames ≤ numberOfFrames
    · rcases boot_returns left heap physical with ⟨leftFinal, leftRun, leftDone⟩
      rcases boot_returns right heap physical with
        ⟨rightFinal, rightRun, rightDone⟩
      rcases independent leftFinal rightFinal leftRun rightRun with ⟨same, empty⟩
      refine .inr ⟨?_, ?_⟩
      · intro page boot unmapped
        have isTable : IsTable (image.directoryEntry numberOfFrames) (page / 1024) :=
          isTable_iff.mpr boot
        have bound := isTable.bound
        have entries := same page (by omega) isTable.noSelfMap
        rw [pageEntry_boot leftDone boot, pageEntry_boot rightDone boot, KernelImage.tableEntry,
          KernelImage.tableEntry, unmapped] at entries
        exact Option.some.inj entries
      · intro page lower upper
        have entry := (empty page lower upper).1
        rw [heap_entry heap leftDone lower upper] at entry
        exact Option.some.inj entry
    · exact .inl (by omega)
  · rintro (small | agree) leftFinal rightFinal leftRun rightRun
    · have finished := (finished_ensures heap).of_ok leftRun
      have physical := finished.physical
      omega
    · have leftDone := (finished_ensures heap).of_ok leftRun
      have rightDone := (finished_ensures heap).of_ok rightRun
      constructor
      · intro page bound selfMap
        by_cases boot : hasBootTable (page / 1024)
        · rw [pageEntry_boot leftDone boot, pageEntry_boot rightDone boot,
            KernelImage.tableEntry, KernelImage.tableEntry]
          cases mapped : image.mappedEntry numberOfFrames page with
          | none =>
              rw [Option.getD_none, Option.getD_none, agree.same page boot mapped]
          | some entry => rfl
        · rw [pageEntry_none leftDone (by omega) selfMap boot,
            pageEntry_none rightDone (by omega) selfMap boot]
      · intro page lower upper
        have same := agree.same page (heap_boot lower upper) (heap_unmapped heap lower)
        rw [heap_entry heap leftDone lower upper, heap_entry heap rightDone lower upper, ← same,
          agree.heap page lower upper]
        exact ⟨rfl, rfl⟩

theorem independent_zero :
    Independent sampleImage 8192 (fun _ _ => 0) fun _ _ => 0 :=
  (independent_iff (by decide)).mpr (.inr ⟨fun _ _ _ => rfl, fun _ _ _ => rfl⟩)

/-- A memory full of ones maps the whole heap. -/
theorem stale_tables_show :
    ¬∀ left right : Nat → Nat → Word,
      (∀ frame index, index < 1024 →
        kernelBase + frame * 4096 + index * 4 < sampleImage.endOfKernel →
        left frame index = right frame index) →
      Independent sampleImage 8192 left right := by
  intro independent
  have heap : sampleImage.kernelFrames 8192 ≤ 0x6000 := by decide
  let stale (frame index : Nat) : Word :=
    if kernelBase + frame * 4096 + index * 4 < sampleImage.endOfKernel then 0 else 1
  have same : ∀ frame index, index < 1024 →
      kernelBase + frame * 4096 + index * 4 < sampleImage.endOfKernel →
      (0 : Word) = stale frame index :=
    fun frame index _ below => (if_pos below).symm
  rcases boot_returns (fun _ _ => 0) heap (by decide) with ⟨left, leftRun, -⟩
  rcases boot_returns stale heap (by decide) with ⟨right, rightRun, rightDone⟩
  have empty := ((independent _ _ same left right leftRun rightRun).2 (ppn kernelHeapStart)
    (by decide) (by decide)).2
  rw [heap_entry heap rightDone (by decide) (by decide)] at empty
  exact absurd empty (by decide)

end BootMapping

end FosKernel
