import FosKernel.BootLoader
import FosKernel.Foundation.Patches

/-! # The boot loader loads the kernel

Whole sectors are read, so that a segment may overwrite the end of the one before it. Where the
two have the same distance between memory and file, this does no harm.
-/

namespace FosKernel.BootLoader

/-! ## Sectors -/

section Sectors

variable {disk memory : Nat → Byte} {va endVa count offset fuel : Nat}

/-- The registers hold 28 bits. -/
theorem sector_read (bound : offset < 2 ^ 28) : (Command.read offset).sector = offset := by
  have device : ((offset >>> 24) ||| 0xE0) % 256 % 16 = offset / 2 ^ 24 := by
    rw [show (256 : Nat) = 16 * 16 from rfl, Nat.mod_mul_right_mod,
      show (16 : Nat) = 2 ^ 4 from rfl, Nat.or_mod_two_pow, Nat.shiftRight_eq_div_pow,
      show 0xE0 % 2 ^ 4 = 0 from rfl, Nat.or_zero]
    omega
  rw [Command.sector, Command.read]
  simp only [device]
  simp only [Nat.shiftRight_eq_div_pow]
  omega

/-- Some sectors in a row, put to an address. -/
def sectors (disk : Nat → Byte) (va count offset : Nat) : Patch Byte where
  start := va
  size := sectSize * count
  value := fun address => disk (offset * sectSize + (address - va))

theorem sectors_covers {address : Nat} : (sectors disk va count offset).Covers address ↔
    va ≤ address ∧ address < va + sectSize * count := .rfl

/-- One sector more. -/
theorem sectors_succ (bound : offset < 2 ^ 28) :
    (sectors disk (va + sectSize) count (offset + 1)).apply (readsect disk va offset memory) =
      (sectors disk va (count + 1) offset).apply memory := by
  funext address
  by_cases rest : (sectors disk (va + sectSize) count (offset + 1)).Covers address
  · rw [Patch.apply_covered rest]
    rw [sectors_covers] at rest
    rw [Patch.apply_covered (sectors_covers.mpr (by simp only [sectSize] at rest ⊢; omega))]
    simp only [sectors, sectSize] at rest ⊢
    apply congrArg disk
    omega
  · rw [Patch.apply_uncovered rest, readsect, sector_read bound]
    rw [sectors_covers] at rest
    by_cases here : va ≤ address ∧ address < va + sectSize
    · have covers : (sectors disk va (count + 1) offset).Covers address := by
        rw [sectors_covers, Nat.mul_succ]
        generalize sectSize = size at here ⊢
        omega
      rw [if_pos here, Patch.apply_covered covers]
      rfl
    · have uncovered : ¬(sectors disk va (count + 1) offset).Covers address := by
        rw [sectors_covers, Nat.mul_succ]
        generalize sectSize = size at rest here ⊢
        omega
      rw [if_neg here, Patch.apply_uncovered uncovered]

theorem readLoop_ok (enough : count < fuel) (last : endVa ≤ va + sectSize * count)
    (needed : ∀ step < count, va + sectSize * step < endVa) (top : endVa + sectSize ≤ 2 ^ 32)
    (bound : offset + count ≤ 2 ^ 28) :
    readLoop disk fuel va endVa offset memory =
      some ((sectors disk va count offset).apply memory) := by
  induction count generalizing fuel va offset memory with
  | zero =>
      cases fuel with
      | zero => omega
      | succ fuel =>
          rw [readLoop, if_neg (by omega)]
          apply congrArg some
          funext address
          rw [Patch.apply_uncovered]
          rw [sectors_covers]
          omega
  | succ count induction =>
      cases fuel with
      | zero => omega
      | succ fuel =>
          have first : va < endVa := by simpa using needed 0 (Nat.succ_pos count)
          have next : (va + sectSize) % 2 ^ 32 = va + sectSize :=
            Nat.mod_eq_of_lt (by omega)
          have nextSector : (offset + 1) % 2 ^ 32 = offset + 1 := Nat.mod_eq_of_lt (by omega)
          rw [readLoop, if_pos first, next, nextSector, induction (by omega)]
          · rw [sectors_succ (by omega)]
          · simp only [sectSize] at last ⊢
            omega
          · intro step inside
            have := needed (step + 1) (by omega)
            simp only [sectSize] at this ⊢
            omega
          · omega

end Sectors

/-! ## Segments -/

/-- The kernel image begins in the second sector. -/
def imageOf (disk : Nat → Byte) : Nat → Byte := fun index => disk (sectSize + index)

namespace Proghdr

/-- Only the lower 24 bits of the address count. -/
def start (header : Proghdr) : Nat := header.va % 0x1000000

/-- The first byte that is written. -/
def base (header : Proghdr) : Nat := header.start - header.start % sectSize

def count (header : Proghdr) : Nat :=
  (header.start + header.memsz - header.base + (sectSize - 1)) / sectSize

/-- What `readseg` writes. -/
def patch (disk : Nat → Byte) (header : Proghdr) : Patch Byte :=
  sectors disk header.base header.count (header.offset / sectSize + 1)

/-- The segment is below the end of the address space. -/
def Fits (header : Proghdr) : Prop :=
  header.start + header.memsz + sectSize ≤ 2 ^ 32
  deriving Decidable

/-- Memory and file have the same sector boundaries. -/
def Aligned (header : Proghdr) : Prop := header.offset % sectSize = header.start % sectSize
  deriving Decidable

variable {header : Proghdr} {disk memory : Nat → Byte} {address : Nat}

theorem covers_iff : (header.patch disk).Covers address ↔
    header.base ≤ address ∧ address < header.base + sectSize * header.count := .rfl

theorem end_le : header.start + header.memsz ≤ header.base + sectSize * header.count := by
  simp only [base, count, sectSize]
  omega

theorem cover_lt :
    header.base + sectSize * header.count < header.start + header.memsz + sectSize := by
  simp only [base, count, sectSize]
  omega

theorem base_le : header.base ≤ header.start := by
  rw [base]
  omega

/-- The bytes of the segment are those of the file. -/
theorem patch_value (aligned : header.Aligned) (inside : header.start ≤ address) :
    (header.patch disk).value address =
      imageOf disk (header.offset + (address - header.start)) := by
  simp only [patch, sectors, imageOf, base, Aligned, sectSize] at aligned ⊢
  apply congrArg disk
  omega

end Proghdr

theorem readseg_ok {header : Proghdr} {disk memory : Nat → Byte} (fits : header.Fits)
    (offset : header.offset < 2 ^ 32) :
    readseg disk header.va header.memsz header.offset memory =
      some ((header.patch disk).apply memory) := by
  have upper := header.cover_lt
  have lower := header.end_le
  simp only [Proghdr.Fits, sectSize] at fits upper lower
  have last : (header.va % 0x1000000 + header.memsz) % 2 ^ 32 = header.start + header.memsz :=
    Nat.mod_eq_of_lt (by rw [Proghdr.start] at fits; omega)
  rw [readseg, last]
  apply readLoop_ok
  · simp only [readFuel]
    omega
  · exact header.end_le
  · intro step inside
    change header.base + 512 * step < _
    have := header.base_le
    omega
  · simp only [sectSize]
    omega
  · simp only [sectSize]
    omega

/-! ## Headers -/

section Headers

variable {disk memory image : Nat → Byte} {address other : Nat}

theorem load16_shift (first : address + 2 ≤ 2 ^ 32) (second : other + 2 ≤ 2 ^ 32)
    (same : ∀ step < 2, memory (address + step) = image (other + step)) :
    load16 memory address = load16 image other := by
  have zero := same 0 (by decide)
  have one := same 1 (by decide)
  rw [load16, load16, Nat.mod_eq_of_lt (by omega), Nat.mod_eq_of_lt (by omega), one]
  rw [Nat.add_zero, Nat.add_zero] at zero
  rw [zero]

theorem load32_shift (first : address + 4 ≤ 2 ^ 32) (second : other + 4 ≤ 2 ^ 32)
    (same : ∀ step < 4, memory (address + step) = image (other + step)) :
    load32 memory address = load32 image other := by
  rw [load32, load32, Nat.mod_eq_of_lt (by omega), Nat.mod_eq_of_lt (by omega)]
  have low : load16 memory address = load16 image other :=
    load16_shift (by omega) (by omega) fun step inside => same step (by omega)
  have high : load16 memory (address + 2) = load16 image (other + 2) := by
    refine load16_shift (by omega) (by omega) fun step inside => ?_
    rw [Nat.add_assoc, Nat.add_assoc]
    exact same (2 + step) (by omega)
  rw [low, high]

theorem load16_lt (memory : Nat → Byte) (address : Nat) : load16 memory address < 2 ^ 16 := by
  have low := (memory address).isLt
  have high := (memory ((address + 1) % 2 ^ 32)).isLt
  rw [load16]
  omega

theorem load32_lt (memory : Nat → Byte) (address : Nat) : load32 memory address < 2 ^ 32 := by
  have low := load16_lt memory address
  have high := load16_lt memory ((address + 2) % 2 ^ 32)
  rw [load32]
  omega

theorem Proghdr.at_shift (first : address + sizeofProghdr ≤ 2 ^ 32)
    (second : other + sizeofProghdr ≤ 2 ^ 32)
    (same : ∀ step < sizeofProghdr, memory (address + step) = image (other + step)) :
    Proghdr.at memory address = Proghdr.at image other := by
  simp only [sizeofProghdr] at first second same
  have field : ∀ start, start + 4 ≤ 32 →
      load32 memory ((address + start) % 2 ^ 32) = load32 image ((other + start) % 2 ^ 32) := by
    intro start inside
    rw [Nat.mod_eq_of_lt (by omega), Nat.mod_eq_of_lt (by omega)]
    refine load32_shift (by omega) (by omega) fun step bound => ?_
    rw [Nat.add_assoc, Nat.add_assoc]
    exact same (start + step) (by omega)
  simp only [Proghdr.at, field 4 (by decide), field 8 (by decide), field 20 (by decide)]

theorem loadSegments_ok {headers : List Proghdr} {fuel ph : Nat} (enough : headers.length < fuel)
    (inside : ph + sizeofProghdr * headers.length < 2 ^ 32)
    (found : ∀ step (bound : step < headers.length),
      Proghdr.at memory (ph + sizeofProghdr * step) = headers[step])
    (fits : ∀ header ∈ headers, header.Fits)
    (clear : ∀ header ∈ headers, ∀ address, ph ≤ address →
      address < ph + sizeofProghdr * headers.length → ¬(header.patch disk).Covers address) :
    loadSegments disk fuel ph (ph + sizeofProghdr * headers.length) memory =
      some (Patch.applyAll (headers.map (Proghdr.patch disk)) memory) := by
  induction headers generalizing fuel ph memory with
  | nil =>
      cases fuel with
      | zero => cases enough
      | succ fuel =>
          rw [loadSegments, if_neg (by simp)]
          rfl
  | cons header headers induction =>
      cases fuel with
      | zero => cases enough
      | succ fuel =>
          have here : Proghdr.at memory ph = header := found 0 (Nat.succ_pos _)
          have offset : header.offset < 2 ^ 32 := by
            rw [← here]
            exact load32_lt _ _
          simp only [List.length_cons, sizeofProghdr] at enough inside found clear ⊢
          have next : (ph + 32) % 2 ^ 32 = ph + 32 := Nat.mod_eq_of_lt (by omega)
          rw [loadSegments, if_pos (by omega)]
          simp only [here, readseg_ok (fits header List.mem_cons_self) offset,
            Option.bind_eq_bind, Option.bind_some, sizeofProghdr, next]
          rw [show ph + 32 * (headers.length + 1) = ph + 32 + 32 * headers.length by omega]
          apply induction (by omega) (by simp only [sizeofProghdr]; omega)
          · intro step bound
            rw [sizeofProghdr, ← List.getElem_cons_succ header headers step (by simpa using bound),
              ← found (step + 1) (by omega)]
            rw [show ph + 32 * (step + 1) = ph + 32 + 32 * step by omega]
            apply Proghdr.at_shift
            · simp only [sizeofProghdr]
              omega
            · simp only [sizeofProghdr]
              omega
            · intro byte below
              simp only [sizeofProghdr] at below
              exact Patch.apply_same fun covers =>
                absurd covers (clear header List.mem_cons_self _ (by omega) (by omega))
          · exact fun other member => fits other (List.mem_cons_of_mem _ member)
          · intro other member address lower upper
            simp only [sizeofProghdr] at upper
            exact clear other (List.mem_cons_of_mem _ member) address (by omega) (by omega)

end Headers

/-! ## The kernel -/

section Kernel

variable {disk memory image : Nat → Byte}

/-- The program headers of an image. -/
def headers (image : Nat → Byte) : List Proghdr :=
  (List.range (load16 image 44)).map fun index =>
    Proghdr.at image (load32 image 28 + sizeofProghdr * index)

/-- The later segment leaves the bytes of the first one as they are. -/
def Proghdr.Spares (first later : Proghdr) : Prop :=
  first.start + first.memsz ≤ later.base ∨
    later.base + sectSize * later.count ≤ first.start ∨
    first.start + later.offset = later.start + first.offset
  deriving Decidable

/-- The first eight sectors hold the headers, and no segment is loaded over them. -/
structure Bootable (image : Nat → Byte) : Prop where
  magic : load32 image 0 = elfMagic
  table : load32 image 28 + sizeofProghdr * load16 image 44 ≤ sectSize * 8
  fits : ∀ header ∈ headers image, header.Fits
  aligned : ∀ header ∈ headers image, header.Aligned
  clear : ∀ header ∈ headers image, header.start + header.memsz ≤ elfHdr ∨
    elfHdr + sectSize * 8 ≤ header.start
  apart : (headers image).Pairwise Proghdr.Spares

/-- The page of the headers has been read. -/
def Scratch (image memory : Nat → Byte) : Prop :=
  ∀ step < sectSize * 8, memory (elfHdr + step) = image step

theorem readHeaders_ok (disk memory : Nat → Byte) :
    ∃ page, readseg disk elfHdr (sectSize * 8) 0 memory = some page ∧
      Scratch (imageOf disk) page ∧
      ∀ address, ¬(elfHdr ≤ address ∧ address < elfHdr + sectSize * 8) →
        page address = memory address := by
  let header : Proghdr := ⟨0, elfHdr, sectSize * 8⟩
  have fits : header.Fits := by decide
  have aligned : header.Aligned := by decide
  have start : header.start = elfHdr := by decide
  have covers : ∀ address, (header.patch disk).Covers address ↔
      elfHdr ≤ address ∧ address < elfHdr + sectSize * 8 := by
    intro address
    rw [Proghdr.covers_iff, show header.base = elfHdr by decide, show header.count = 8 by decide]
  refine ⟨_, readseg_ok fits (by decide), ?_, ?_⟩
  · intro step inside
    rw [Patch.apply_covered ((covers _).mpr ⟨by omega, by omega⟩),
      Proghdr.patch_value aligned (by rw [start]; omega), start, Nat.add_sub_cancel_left]
    exact congrArg disk (by rw [show header.offset = 0 from rfl, Nat.zero_add])
  · intro address outside
    exact Patch.apply_uncovered (mt (covers address).mp outside)

theorem Scratch.load32 (scratch : Scratch image memory) {index : Nat}
    (inside : index + 4 ≤ sectSize * 8) :
    BootLoader.load32 memory (elfHdr + index) = BootLoader.load32 image index := by
  simp only [sectSize] at inside
  apply load32_shift
  · simp only [elfHdr]
    omega
  · omega
  · intro step bound
    rw [Nat.add_assoc]
    exact scratch (index + step) (by simp only [sectSize]; omega)

theorem Scratch.load16 (scratch : Scratch image memory) {index : Nat}
    (inside : index + 2 ≤ sectSize * 8) :
    BootLoader.load16 memory (elfHdr + index) = BootLoader.load16 image index := by
  simp only [sectSize] at inside
  apply load16_shift
  · simp only [elfHdr]
    omega
  · omega
  · intro step bound
    rw [Nat.add_assoc]
    exact scratch (index + step) (by simp only [sectSize]; omega)

/-- The headers in memory are those of the image. -/
theorem Scratch.header (scratch : Scratch image memory) {index : Nat}
    (inside : index + sizeofProghdr ≤ sectSize * 8) :
    Proghdr.at memory (elfHdr + index) = Proghdr.at image index := by
  simp only [sectSize, sizeofProghdr] at inside
  apply Proghdr.at_shift
  · simp only [elfHdr, sizeofProghdr]
    omega
  · simp only [sizeofProghdr]
    omega
  · intro step bound
    simp only [sizeofProghdr] at bound
    rw [Nat.add_assoc]
    exact scratch (index + step) (by simp only [sectSize]; omega)

/-- A segment that stays clear of the headers covers none of their sectors. -/
theorem Proghdr.clear_covers {header : Proghdr}
    (clear : header.start + header.memsz ≤ elfHdr ∨ elfHdr + sectSize * 8 ≤ header.start)
    {address : Nat} (lower : elfHdr ≤ address) (upper : address < elfHdr + sectSize * 8) :
    ¬(header.patch disk).Covers address := by
  rw [covers_iff]
  simp only [base, count, elfHdr, sectSize] at clear lower upper ⊢
  omega

theorem Bootable.loads (bootable : Bootable image) (scratch : Scratch image memory) :
    loadSegments disk (2 ^ 16) (elfHdr + load32 image 28)
      (elfHdr + load32 image 28 + sizeofProghdr * load16 image 44) memory =
      some (Patch.applyAll ((headers image).map (Proghdr.patch disk)) memory) := by
  have table := bootable.table
  simp only [sectSize, sizeofProghdr] at table
  have length : (headers image).length = load16 image 44 := by simp [headers]
  rw [← length]
  apply loadSegments_ok
  · rw [length]
    exact load16_lt image 44
  · simp only [length, sizeofProghdr, elfHdr]
    omega
  · intro step bound
    rw [length] at bound
    rw [Nat.add_assoc, scratch.header]
    · simp [headers]
    · simp only [sectSize, sizeofProghdr]
      omega
  · exact bootable.fits
  · intro header member address lower upper
    rw [length, sizeofProghdr] at upper
    apply Proghdr.clear_covers (bootable.clear header member)
    · omega
    · simp only [sectSize]
      omega

theorem patch_spares {first later : Proghdr} {step : Nat} (spares : first.Spares later)
    (aligned : later.Aligned) (alignedFirst : first.Aligned) (inside : step < first.memsz)
    (covers : (later.patch disk).Covers (first.start + step)) :
    (later.patch disk).value (first.start + step) =
      (first.patch disk).value (first.start + step) := by
  rw [Proghdr.covers_iff] at covers
  have sector : (later.patch disk).value (first.start + step) =
      disk (later.offset / sectSize * sectSize + sectSize + (first.start + step - later.base)) := by
    simp only [Proghdr.patch, sectors, Nat.succ_mul]
  rw [sector, Proghdr.patch_value alignedFirst (Nat.le_add_right _ _)]
  apply congrArg disk
  rcases spares with below | above | same
  · omega
  · omega
  · simp only [Proghdr.Aligned, Proghdr.base, sectSize] at aligned alignedFirst covers ⊢
    omega

/-- The kernel is entered with every segment in memory as it is in the file. What is neither in
a sector of a segment nor in the page of the headers has not changed. -/
theorem kernel_loaded (bootable : Bootable (imageOf disk)) :
    ∃ final, cmain disk memory = some (.jump (load32 (imageOf disk) 24 % 0x1000000) final) ∧
      (∀ header ∈ headers (imageOf disk), ∀ step < header.memsz,
        final (header.start + step) = imageOf disk (header.offset + step)) ∧
      ∀ address, ¬(elfHdr ≤ address ∧ address < elfHdr + sectSize * 8) →
        (∀ header ∈ headers (imageOf disk), ¬(header.patch disk).Covers address) →
        final address = memory address := by
  rcases readHeaders_ok disk memory with ⟨page, read, scratch, outside⟩
  have table := bootable.table
  simp only [sectSize, sizeofProghdr] at table
  have magic : load32 page elfHdr = elfMagic :=
    (@Scratch.load32 page (imageOf disk) scratch 0 (by decide)).trans bootable.magic
  have phoff := @Scratch.load32 page (imageOf disk) scratch 28 (by decide)
  have phnum := @Scratch.load16 page (imageOf disk) scratch 44 (by decide)
  have first :
      (elfHdr + load32 page (elfHdr + 28)) % 2 ^ 32 = elfHdr + load32 (imageOf disk) 28 := by
    rw [phoff]
    exact Nat.mod_eq_of_lt (by simp only [elfHdr]; omega)
  have last :
      (elfHdr + load32 (imageOf disk) 28 + sizeofProghdr * load16 page (elfHdr + 44)) % 2 ^ 32 =
      elfHdr + load32 (imageOf disk) 28 + sizeofProghdr * load16 (imageOf disk) 44 := by
    rw [phnum]
    exact Nat.mod_eq_of_lt (by simp only [elfHdr, sizeofProghdr]; omega)
  have entry : load32 (Patch.applyAll ((headers (imageOf disk)).map (Proghdr.patch disk)) page)
      (elfHdr + 24) = load32 (imageOf disk) 24 := by
    rw [← @Scratch.load32 page (imageOf disk) scratch 24 (by decide)]
    refine load32_shift (by decide) (by decide) fun step inside => ?_
    refine Patch.applyAll_outside fun patch member => ?_
    rcases List.mem_map.mp member with ⟨header, listed, rfl⟩
    exact Proghdr.clear_covers (bootable.clear header listed) (by omega)
      (by simp only [sectSize]; omega)
  refine ⟨Patch.applyAll ((headers (imageOf disk)).map (Proghdr.patch disk)) page, ?_, ?_, ?_⟩
  · simp only [cmain, read, Option.bind_eq_bind, Option.bind_some, magic, ne_eq, not_true,
      if_false, first, last, bootable.loads scratch, entry]
    rfl
  · intro header member step inside
    rcases List.append_of_mem member with ⟨before, after, split⟩
    have aligned := bootable.aligned header member
    have spares := bootable.apart
    rw [split, List.pairwise_append, List.pairwise_cons] at spares
    rw [split, List.map_append, List.map_cons, Patch.applyAll_written]
    · rw [Proghdr.patch_value aligned (Nat.le_add_right _ _), Nat.add_sub_cancel_left]
    · rw [Proghdr.covers_iff]
      have := header.end_le
      have := header.base_le
      omega
    · intro later listed covers
      rcases List.mem_map.mp listed with ⟨other, otherListed, rfl⟩
      have known : other ∈ headers (imageOf disk) := by
        rw [split]
        exact List.mem_append_right _ (List.mem_cons_of_mem _ otherListed)
      exact patch_spares (spares.2.1.1 other otherListed) (bootable.aligned other known) aligned
        inside covers
  · intro address apart uncovered
    rw [Patch.applyAll_outside, outside address apart]
    intro patch member
    rcases List.mem_map.mp member with ⟨header, listed, rfl⟩
    exact uncovered header listed

end Kernel

/-- An ELF header with two program headers. The second segment begins in the last sector of the
first one. -/
def sampleHeader : List Nat :=
  [0x7F, 0x45, 0x4C, 0x46] ++ List.replicate 20 0 ++ [0x0C, 0, 0x10, 0xF0] ++ [52, 0, 0, 0] ++
    List.replicate 12 0 ++ [2, 0] ++ List.replicate 6 0 ++
    [1, 0, 0, 0, 0, 0x10, 0, 0, 0, 0, 0x10, 0xF0] ++ List.replicate 8 0 ++ [0, 3, 0, 0] ++
    List.replicate 8 0 ++
    [1, 0, 0, 0, 0, 0x13, 0, 0, 0, 3, 0x10, 0xF0] ++ List.replicate 8 0 ++ [0, 5, 0, 0]

def sampleDisk : Nat → Byte := fun index =>
  BitVec.ofNat 8 (if index < sectSize then 0 else sampleHeader.getD (index - sectSize) (index / 7))

theorem sample_bootable : Bootable (imageOf sampleDisk) where
  magic := by decide
  table := by decide
  fits := by decide +kernel
  aligned := by decide +kernel
  clear := by decide +kernel
  apart := by decide +kernel

theorem kernel_loaded_sample : ∃ final,
    cmain sampleDisk (fun _ => 0) = some (.jump 0x10000C final) ∧
      headers (imageOf sampleDisk) = [⟨0x1000, 0xF0100000, 0x300⟩, ⟨0x1300, 0xF0100300, 0x500⟩] ∧
      final 0x1002FF = imageOf sampleDisk 0x12FF := by
  rcases @kernel_loaded sampleDisk (fun _ => 0) sample_bootable with ⟨final, entered, loaded, -⟩
  have listed : headers (imageOf sampleDisk) =
      [⟨0x1000, 0xF0100000, 0x300⟩, ⟨0x1300, 0xF0100300, 0x500⟩] := by decide +kernel
  refine ⟨final, entered, listed, ?_⟩
  have first := loaded ⟨0x1000, 0xF0100000, 0x300⟩ (by rw [listed]; exact List.mem_cons_self)
  exact first 0x2FF (by decide)

end FosKernel.BootLoader
