import FosKernel.Memory.Layout
import Mathlib.Logic.Function.Basic

/-! # Strings

Conversions between numbers and strings (`lib/string.c`). A string that is only read is the
list of its characters before the terminating NUL.
-/

namespace FosKernel.Text

def character (char : Char) : Byte := BitVec.ofNat 8 char.toNat

/-- The characters of a NUL-terminated string. -/
structure CString where
  bytes : List Byte
  nonzero : ∀ byte ∈ bytes, byte ≠ 0

/-- The characters in the memory from an address on, up to a NUL. -/
def textFrom (memory : Nat → Byte) : Nat → Nat → List Byte
  | 0, _ => []
  | fuel + 1, address =>
      if memory address = 0 then [] else memory address :: textFrom memory fuel (address + 1)

/-- A string in a memory of 32-bit addresses. -/
def text (memory : Nat → Byte) (address : Nat) : List Byte := textFrom memory (2 ^ 32) address

/-- The terminating NUL is less than every other character. -/
def strcmp : List Byte → List Byte → Int
  | [], q => -((q.headD 0).toNat : Int)
  | char :: p, q =>
      if q.head? = some char then strcmp p q.tail
      else (char.toNat : Int) - (q.headD 0).toNat

def strncmp : List Byte → List Byte → Nat → Int
  | _, _, 0 => 0
  | [], q, _ + 1 => -((q.headD 0).toNat : Int)
  | char :: p, q, n + 1 =>
      if q.head? = some char then strncmp p q.tail n
      else (char.toNat : Int) - (q.headD 0).toNat

/-- What 32-bit arithmetic makes of a number. -/
def int32 (value : Int) : Int := value.bmod (2 ^ 32)

/-! ## `strtol` -/

def isBlank (char : Byte) : Bool := char = character ' ' ∨ char = character '\t'

/-- Whether there is a minus sign, and what follows the sign. -/
def takeSign : List Byte → Bool × List Byte
  | [] => (false, [])
  | char :: s =>
      if char = character '+' then (false, s)
      else if char = character '-' then (true, s)
      else (false, char :: s)

/-- The base and what follows its prefix. -/
def takePrefix (base : Int) (s : List Byte) : Int × List Byte :=
  if (base = 0 ∨ base = 16) ∧ s[0]? = some (character '0') ∧ s[1]? = some (character 'x') then
    (16, s.drop 2)
  else if base = 0 ∧ s[0]? = some (character '0') then (8, s.drop 1)
  else if base = 0 then (10, s)
  else (base, s)

/-- The value of a character as a digit, in any base. -/
def digitValue (char : Byte) : Option Int :=
  let value := char.toInt
  if 48 ≤ value ∧ value ≤ 57 then some (value - 48)
  else if 97 ≤ value ∧ value ≤ 122 then some (value - 97 + 10)
  else if 65 ≤ value ∧ value ≤ 90 then some (value - 65 + 10)
  else none

/-- The loop over the digits, in the arithmetic of a 32-bit `long`. -/
def takeDigits (base : Int) : List Byte → Int → Int × List Byte
  | [], val => (val, [])
  | char :: s, val =>
      match digitValue char with
      | none => (val, char :: s)
      | some dig =>
          if base ≤ dig then (val, char :: s)
          else takeDigits base s (int32 (val * base + dig))

/-- The number and what follows it in the string, which `*endptr` points to. -/
def strtol (s : List Byte) (base : Int) : Int × List Byte :=
  let (neg, s) := takeSign (s.dropWhile isBlank)
  let (base, s) := takePrefix base s
  let (val, s) := takeDigits base s 0
  (if neg then int32 (-val) else val, s)

/-! ## `ltostr` -/

/-- The characters that the digit loop stores from index `s` on, and the index after them. -/
def storeDigits (value : Int) (s : Nat) (str : Nat → Byte) : Nat × (Nat → Byte) :=
  let mod := value.tmod 10
  let str := Function.update str s (BitVec.ofInt 8 (mod + 48))
  let rest := value.tdiv 10
  if more : rest.tmod 10 ≠ 0 then storeDigits rest (s + 1) str
  else (s + 1, str)
termination_by value.natAbs
decreasing_by
  have positive : 0 < value.natAbs := by
    refine Int.natAbs_pos.mpr fun zero => more ?_
    simp [rest, zero]
  rw [Int.natAbs_tdiv]
  exact Nat.div_lt_self positive (by decide)

/-- The loop that swaps the characters from the two ends. -/
def reverseString (start last : Nat) (str : Nat → Byte) : Nat → Byte :=
  if start < last then
    let tmp := str start
    let str := Function.update str start (str last)
    let str := Function.update str last tmp
    reverseString (start + 1) (last - 1) str
  else str
termination_by last - start

/-- The memory at `str` after `ltostr`, by its offsets from `str`. -/
def ltostr (value : Int) (str : Nat → Byte) : Nat → Byte :=
  let neg : Bool := value < 0
  let (value, s, str) :=
    if neg then (int32 (value * -1), 1, Function.update str 0 (character '-'))
    else (value, 0, str)
  let (s, str) := storeDigits value s str
  let str := reverseString (if neg then 1 else 0) (s - 1) str
  Function.update str s 0

/-! ## `strsplit` -/

def maxArguments : Nat := 16

/-- What follows in a string from the first occurrence of a character on. -/
def strchr : List Byte → Byte → Option (List Byte)
  | [], _ => none
  | char :: s, c => if char = c then some (char :: s) else strchr s c

inductive SplitFault
  | endless | outside
  deriving DecidableEq

/-- Store `argv[index]`, in an array of `MAX_ARGUMENTS` pointers. -/
def storeArgument (argv : Nat → Nat) (index string : Nat) : Except SplitFault (Nat → Nat) :=
  if index < maxArguments then return Function.update argv index string else throw .outside

section Split

variable (splitChars : CString)

/-- The loop that overwrites split characters. -/
def trimSplitChars : Nat → Nat → (Nat → Byte) → Except SplitFault (Nat × (Nat → Byte))
  | 0, _, _ => throw .endless
  | fuel + 1, string, memory =>
      if memory string ≠ 0 ∧ strchr splitChars.bytes (memory string) ≠ none then
        trimSplitChars fuel (string + 1) (Function.update memory string 0)
      else return (string, memory)

/-- The loop that goes past an argument. -/
def skipArgument (memory : Nat → Byte) : Nat → Nat → Except SplitFault Nat
  | 0, _ => throw .endless
  | fuel + 1, string =>
      if memory string ≠ 0 ∧ strchr splitChars.bytes (memory string) = none then
        skipArgument memory fuel (string + 1)
      else return string

/-- The value of `strsplit` and what it leaves in the memory, in `argv` and in `argc`. -/
structure Split where
  value : Int
  memory : Nat → Byte
  argv : Nat → Nat
  argc : Nat

def splitLoop : Nat → Nat → (Nat → Byte) → (Nat → Nat) → Nat → Except SplitFault Split
  | 0, _, _, _, _ => throw .endless
  | fuel + 1, string, memory, argv, argc => do
      let (string, memory) ← trimSplitChars splitChars fuel string memory
      if memory string = 0 then
        let argv ← storeArgument argv argc 0
        return ⟨1, memory, argv, argc⟩
      else if argc = maxArguments - 1 then return ⟨0, memory, argv, argc⟩
      else
        let argv ← storeArgument argv argc string
        let string ← skipArgument splitChars memory fuel string
        splitLoop fuel string memory argv (argc + 1)

def strsplit (fuel string : Nat) (memory : Nat → Byte) (argv : Nat → Nat) :
    Except SplitFault Split := do
  let argv ← storeArgument argv 0 0
  splitLoop splitChars fuel string memory argv 0

end Split

end FosKernel.Text
