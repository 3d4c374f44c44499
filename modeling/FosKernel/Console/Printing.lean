import FosKernel.Abstract.Strings
import FosKernel.Console.Display
import FosKernel.Foundation.Sections
import FosKernel.Text.Format

/-! # Printing

The kernel's `cprintf` (`kern/printf.c`) puts each character on the display. The `cprintf` of a
user program (`lib/printf.c`) collects the characters in a buffer, which it hands over with
`sys_cputs` (`kern/syscall.c`).
-/

namespace FosKernel.Printing

open Text Console Sections

/-! ## The kernel -/

namespace Kernel

def cputchar (ch : Int) (display : Display) : Display := display.consPutc (BitVec.ofInt 32 ch)

/-- `putch` moves its pointer to the count, and the count stays as it is. -/
def vcprintf (fuel : Nat) (fmt : CString) (args : Nat → Argument) (display : Display) :
    Except FormatFault (Int × Display) := do
  let display ← vprintfmt cputchar fuel fmt args 0 0 display
  return (0, display)

def cprintf (fuel : Nat) (fmt : CString) (args : Nat → Argument) (display : Display) :
    Except FormatFault (Int × Display) := vcprintf fuel fmt args display

end Kernel

/-- The fields of an environment that `sys_cputs` reads. -/
structure Caller where
  progName : CString
  progName_lt : progName.bytes.length < 64
  envId : BitVec 32

def nameFormat : CString := ⟨"[%s %d] ".toList.map character, by decide⟩

def spanFormat : CString := ⟨"%.*s".toList.map character, by decide⟩

def charFormat : CString := ⟨"%c".toList.map character, by decide⟩

/-- What `%.*s` can print of the memory at `s`. -/
def spanAt (s : Nat → Byte) (len : Nat) : CString := ⟨textFrom s len 0, textFrom_nonzero⟩

def nameArguments (curenv : Caller) : Nat → Argument
  | 0 => ⟨0, 0, some curenv.progName⟩
  | _ => ⟨curenv.envId, 0, none⟩

def spanArguments (s : Nat → Byte) (len : Nat) : Nat → Argument
  | 0 => ⟨BitVec.ofNat 32 len, 0, none⟩
  | _ => ⟨0, 0, some (spanAt s len)⟩

def sysCputs (fuel : Nat) (curenv : Caller) (s : Nat → Byte) (len : Nat) (printProgName : Bool)
    (display : Display) : Except FormatFault Display := do
  let display ←
    if printProgName then
      let (_, display) ← Kernel.cprintf fuel nameFormat (nameArguments curenv) display
      pure display
    else pure display
  let (_, display) ← Kernel.cprintf fuel spanFormat (spanArguments s len) display
  return display

def sysCputc (fuel : Nat) (c : Byte) (display : Display) : Except FormatFault Display := do
  let (_, display) ← Kernel.cprintf fuel charFormat (fun _ => ⟨c.signExtend 32, 0, none⟩) display
  return display

/-! ## User programs -/

/-- A system call that prints, with the memory at its pointer. -/
inductive Call
  | cputs (s : Nat → Byte) (len : Nat) (printProgName : Bool)
  | cputc (c : Byte)

def Call.serve (fuel : Nat) (curenv : Caller) (display : Display) :
    Call → Except FormatFault Display
  | cputs s len printProgName => sysCputs fuel curenv s len printProgName display
  | cputc c => sysCputc fuel c display

/-- `struct printbuf`, and the system calls that were made. -/
structure PrintBuf where
  idx : Nat
  cnt : Int
  buf : Nat → Byte
  calls : List Call

/-- A write behind the 256 bytes of the buffer fails. -/
def putch (printProgName : Bool) (ch : Int) (b : Except FormatFault PrintBuf) :
    Except FormatFault PrintBuf := do
  let b ← b
  if 256 ≤ b.idx then throw .outside
  let buf := Function.update b.buf b.idx (BitVec.ofInt 8 ch)
  let idx := b.idx + 1
  if idx = 256 - 1 then
    return ⟨0, int32 (b.cnt + 1), buf, b.calls ++ [.cputs buf idx printProgName]⟩
  else return ⟨idx, int32 (b.cnt + 1), buf, b.calls⟩

/-- The value, the system calls, and `printProgName` afterwards. The buffer starts with what is
on the stack. -/
def vcprintf (fuel : Nat) (stack : Nat → Byte) (fmt : CString) (args : Nat → Argument)
    (printProgName : Bool) : Except FormatFault (Int × List Call × Bool) := do
  let b ← vprintfmt (putch printProgName) fuel fmt args 0 0 (.ok ⟨0, 0, stack, []⟩)
  let b ← b
  return (b.cnt, b.calls ++ [.cputs b.buf b.idx printProgName], false)

def cprintf (fuel : Nat) (stack : Nat → Byte) (fmt : CString) (args : Nat → Argument)
    (_printProgName : Bool) : Except FormatFault (Int × List Call × Bool) :=
  vcprintf fuel stack fmt args true

/-- `atomic_cprintf`, without the system calls around it that forbid the interruptions. -/
def atomicCprintf (fuel : Nat) (stack : Nat → Byte) (fmt : CString) (args : Nat → Argument)
    (printProgName : Bool) : Except FormatFault (Int × List Call × Bool) :=
  vcprintf fuel stack fmt args printProgName

/-- A call of one of the functions that print. -/
inductive Print
  | cprintf (stack : Nat → Byte) (fmt : CString) (args : Nat → Argument)
  | atomicCprintf (stack : Nat → Byte) (fmt : CString) (args : Nat → Argument)
  | cputchar (ch : Int)
  | atomicCputchar (ch : Int)

/-- The system calls of a program that prints, in the pieces that cannot be interrupted. -/
def pieces (fuel : Nat) : List Print → Bool → Except FormatFault (List (Piece Call))
  | [], _ => return []
  | .cprintf stack fmt args :: prints, printProgName => do
      let (_, calls, printProgName) ← cprintf fuel stack fmt args printProgName
      return calls.map .single ++ (← pieces fuel prints printProgName)
  | .atomicCprintf stack fmt args :: prints, printProgName => do
      let (_, calls, printProgName) ← atomicCprintf fuel stack fmt args printProgName
      return .together calls :: (← pieces fuel prints printProgName)
  | .cputchar ch :: prints, printProgName =>
      return .single (.cputc (BitVec.ofInt 8 ch)) :: (← pieces fuel prints printProgName)
  | .atomicCputchar ch :: prints, printProgName =>
      return .together [.cputc (BitVec.ofInt 8 ch)] :: (← pieces fuel prints printProgName)

end FosKernel.Printing
