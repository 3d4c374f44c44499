import FosKernel.Foundation.Copy
import FosKernel.Text.Strings

/-! # Blocks and strings in the memory

The functions of `lib/string.c` that go through the memory. Pointers are natural numbers and
do not wrap around. A loop that looks for a NUL has a bound on its steps and has no result
where it does not end within them.
-/

namespace FosKernel.Text.Pointers

/-! ## Blocks -/

/-- The loop `while (--m >= 0)` over an `int`. -/
def memsetLoop (memory : Nat → Byte) (p : Nat) (c : Byte) (m : BitVec 32) : Nat → Byte :=
  if 0 ≤ (m - 1).toInt then memsetLoop (Function.update memory p c) (p + 1) c (m - 1)
  else memory
termination_by m.toNat
decreasing_by
  have positive : m ≠ 0 := by
    rintro rfl
    contradiction
  have := m.isLt
  have : m.toNat ≠ 0 := fun zero => positive (BitVec.eq_of_toNat_eq zero)
  rw [BitVec.toNat_sub, show (1 : BitVec 32).toNat = 1 from rfl]
  omega

def memset (memory : Nat → Byte) (v : Nat) (c n : BitVec 32) : Nat → Byte :=
  memsetLoop memory v (c.setWidth 8) n

/-- For cells of any size. -/
def memcpy (memory : Nat → α) (dst src n : Nat) : Nat → α := copyUp memory dst src n

def memmove (memory : Nat → Byte) (dst src n : Nat) : Nat → Byte :=
  if src < dst ∧ dst < src + n then copyDown memory dst src n else copyUp memory dst src n

def memcmp (memory : Nat → Byte) : Nat → Nat → Nat → Int
  | _, _, 0 => 0
  | s1, s2, n + 1 =>
      if memory s1 ≠ memory s2 then ((memory s1).toNat : Int) - (memory s2).toNat
      else memcmp memory (s1 + 1) (s2 + 1) n

/-- `ends - s` is the last argument. -/
def memfindLoop (memory : Nat → Byte) (c : Byte) : Nat → Nat → Nat
  | s, 0 => s
  | s, rest + 1 => if memory s = c then s else memfindLoop memory c (s + 1) rest

def memfind (memory : Nat → Byte) (s : Nat) (c : BitVec 32) (n : Nat) : Nat :=
  memfindLoop memory (c.setWidth 8) s n

/-! ## Strings -/

def strlen (memory : Nat → Byte) : Nat → Nat → Option Nat
  | 0, _ => none
  | fuel + 1, s => if memory s ≠ 0 then (strlen memory fuel (s + 1)).map (· + 1) else some 0

def strnlen (memory : Nat → Byte) : Nat → Nat → Nat
  | _, 0 => 0
  | s, size + 1 => if memory s ≠ 0 then strnlen memory (s + 1) size + 1 else 0

/-- The memory after the copy. -/
def strcpy (memory : Nat → Byte) : Nat → Nat → Nat → Option (Nat → Byte)
  | 0, _, _ => none
  | fuel + 1, dst, src =>
      let char := memory src
      let memory := Function.update memory dst char
      if char ≠ 0 then strcpy memory fuel (dst + 1) (src + 1) else some memory

def strncpy (memory : Nat → Byte) : Nat → Nat → Nat → Nat → Byte
  | _, _, 0 => memory
  | dst, src, size + 1 =>
      let memory := Function.update memory dst (memory src)
      strncpy memory (dst + 1) (if memory src ≠ 0 then src + 1 else src) size

/-- The loop of `strlcpy`, where `size` was already decremented, and its last value of `dst`. -/
def strlcpyLoop (memory : Nat → Byte) : Nat → Nat → Nat → (Nat → Byte) × Nat
  | dst, _, 0 => (memory, dst)
  | dst, src, size + 1 =>
      if memory src ≠ 0 then
        strlcpyLoop (Function.update memory dst (memory src)) (dst + 1) (src + 1) size
      else (memory, dst)

/-- The memory after the copy and the value. -/
def strlcpy (memory : Nat → Byte) (dst src size : Nat) : (Nat → Byte) × Nat :=
  if 0 < size then
    let (memory, last) := strlcpyLoop memory dst src (size - 1)
    (Function.update memory last 0, last - dst)
  else (memory, 0)

def strcmp (memory : Nat → Byte) : Nat → Nat → Nat → Option Int
  | 0, _, _ => none
  | fuel + 1, p, q =>
      if memory p ≠ 0 ∧ memory p = memory q then strcmp memory fuel (p + 1) (q + 1)
      else some ((memory p).toNat - (memory q).toNat)

def strncmp (memory : Nat → Byte) : Nat → Nat → Nat → Int
  | _, _, 0 => 0
  | p, q, n + 1 =>
      if memory p ≠ 0 ∧ memory p = memory q then strncmp memory (p + 1) (q + 1) n
      else (memory p).toNat - (memory q).toNat

def strfind (memory : Nat → Byte) (c : Byte) : Nat → Nat → Option Nat
  | 0, _ => none
  | fuel + 1, s =>
      if memory s = 0 then some s
      else if memory s = c then some s
      else strfind memory c fuel (s + 1)

/-- A null pointer is `none`. -/
def strchr (memory : Nat → Byte) (c : Byte) : Nat → Nat → Option (Option Nat)
  | 0, _ => none
  | fuel + 1, s =>
      if memory s = 0 then some none
      else if memory s = c then some (some s)
      else strchr memory c fuel (s + 1)

/-- The two loops copy without their NUL. -/
def strcconcat (memory : Nat → Byte) (fuel str1 str2 final : Nat) : Option (Nat → Byte) := do
  let len1 ← strlen memory fuel str1
  let len2 ← strlen memory fuel str2
  let memory := copyUp memory final str1 len1
  let memory := copyUp memory (final + len1) str2 len2
  return Function.update memory (final + len1 + len2) 0

end FosKernel.Text.Pointers
