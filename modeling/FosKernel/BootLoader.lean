import FosKernel.Memory.Layout

/-! # The boot loader

`boot/main.c`: the kernel image is read from the disk and its segments are put into memory.
Addresses and sector numbers are natural numbers modulo `2 ^ 32`.
-/

namespace FosKernel.BootLoader

/-- `SECTSIZE`. -/
def sectSize : Nat := 512

/-- `ELFHDR`. -/
def elfHdr : Nat := 0x10000

def elfMagic : Nat := 0x464C457F

/-- A field of two bytes. -/
def load16 (memory : Nat → Byte) (address : Nat) : Nat :=
  (memory address).toNat + 256 * (memory ((address + 1) % 2 ^ 32)).toNat

/-- A field of four bytes. -/
def load32 (memory : Nat → Byte) (address : Nat) : Nat :=
  load16 memory address + 65536 * load16 memory ((address + 2) % 2 ^ 32)

/-! ## Sectors -/

/-- What `readsect` writes to the ports from `0x1F2` to `0x1F6`. -/
structure Command where
  count : Nat
  low : Nat
  middle : Nat
  high : Nat
  device : Nat

def Command.read (offset : Nat) : Command where
  count := 1
  low := offset % 256
  middle := (offset >>> 8) % 256
  high := (offset >>> 16) % 256
  device := ((offset >>> 24) ||| 0xE0) % 256

/-- The sector that the disk finds in its registers. -/
def Command.sector (command : Command) : Nat :=
  command.low + 256 * command.middle + 65536 * command.high + 16777216 * (command.device % 16)

/-- The bytes of the disk are numbered through. -/
def readsect (disk : Nat → Byte) (dst offset : Nat) (memory : Nat → Byte) : Nat → Byte :=
  fun address =>
    if dst ≤ address ∧ address < dst + sectSize then
      disk ((Command.read offset).sector * sectSize + (address - dst))
    else memory address

/-- The loop `while (va < end_va)`. -/
def readLoop (disk : Nat → Byte) : Nat → Nat → Nat → Nat → (Nat → Byte) → Option (Nat → Byte)
  | 0, _, _, _, _ => none
  | fuel + 1, va, endVa, offset, memory =>
      if va < endVa then
        readLoop disk fuel ((va + sectSize) % 2 ^ 32) endVa ((offset + 1) % 2 ^ 32)
          (readsect disk va offset memory)
      else some memory

/-- After so many steps `va` is back where it was. -/
def readFuel : Nat := 2 ^ 23

def readseg (disk : Nat → Byte) (va count offset : Nat) (memory : Nat → Byte) :
    Option (Nat → Byte) :=
  let va := va % 0x1000000
  let endVa := (va + count) % 2 ^ 32
  let va := va - va % sectSize
  let offset := offset / sectSize + 1
  readLoop disk readFuel va endVa offset memory

/-! ## Segments -/

/-- The fields of `struct Proghdr` that are used. -/
structure Proghdr where
  offset : Nat
  va : Nat
  memsz : Nat
  deriving DecidableEq

def sizeofProghdr : Nat := 32

def Proghdr.at (memory : Nat → Byte) (ph : Nat) : Proghdr where
  offset := load32 memory ((ph + 4) % 2 ^ 32)
  va := load32 memory ((ph + 8) % 2 ^ 32)
  memsz := load32 memory ((ph + 20) % 2 ^ 32)

/-- The loop `for (; ph < eph; ph++)`. The headers are in the memory that the segments are
loaded into. -/
def loadSegments (disk : Nat → Byte) : Nat → Nat → Nat → (Nat → Byte) → Option (Nat → Byte)
  | 0, _, _, _ => none
  | fuel + 1, ph, eph, memory =>
      if ph < eph then do
        let header := Proghdr.at memory ph
        let memory ← readseg disk header.va header.memsz header.offset memory
        loadSegments disk fuel ((ph + sizeofProghdr) % 2 ^ 32) eph memory
      else some memory

inductive Outcome
  /-- The kernel is entered. -/
  | jump (entry : Nat) (memory : Nat → Byte)
  /-- The image is not a kernel. -/
  | bad

/-- No outcome if the loader does not end. There are less than `2 ^ 16` headers. -/
def cmain (disk memory : Nat → Byte) : Option Outcome := do
  let memory ← readseg disk elfHdr (sectSize * 8) 0 memory
  if load32 memory elfHdr ≠ elfMagic then return .bad
  let ph := (elfHdr + load32 memory (elfHdr + 28)) % 2 ^ 32
  let eph := (ph + sizeofProghdr * load16 memory (elfHdr + 44)) % 2 ^ 32
  let memory ← loadSegments disk (2 ^ 16) ph eph memory
  return .jump (load32 memory (elfHdr + 24) % 0x1000000) memory

end FosKernel.BootLoader
