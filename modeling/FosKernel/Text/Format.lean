import FosKernel.Text.Strings

/-! # Formatted output

`printnum`, `vprintfmt` and `vsnprintf` (`lib/printfmt.c`). The format is read through
positions: a read before its start or past its NUL fails. The output function is a
parameter `putch` that changes the data behind `putdat`.
-/

namespace FosKernel.Text

/-- The bases that `printnum` is made for. -/
structure Base where
  value : Nat
  two_le : 2 ≤ value
  le_sixteen : value ≤ 16

def Base.decimal : Base := ⟨10, by decide, by decide⟩

def Base.hexadecimal : Base := ⟨16, by decide, by decide⟩

/-- The code of a character of the source. -/
def code (char : Char) : Int := char.toNat

def digitTable : List Char := "0123456789abcdef".toList

inductive FormatFault
  | outside | errorCode | endless
  deriving DecidableEq

/-- An argument, as `va_arg` reads it at the type that the directive expects. -/
structure Argument where
  int : BitVec 32
  longLong : BitVec 64
  string : Option CString

/-- The local variables that a directive sets. -/
structure Directive where
  padc : Int
  width : Int
  precision : Int
  lflag : Nat
  altflag : Bool

def Directive.initial : Directive := ⟨code ' ', -1, -1, 0, false⟩

section Output

variable (putch : Int → σ → σ)

/-- A loop that puts one character for each step of a width. -/
def putPads (padc : Int) : Nat → σ → σ
  | 0, putdat => putdat
  | count + 1, putdat => putPads padc count (putch padc putdat)

def printnum (num : Nat) (base : Base) (width padc : Int) (putdat : σ) : σ :=
  let putdat :=
    if base.value ≤ num then
      printnum (num / base.value) base (int32 (width - 1)) padc putdat
    else putPads putch padc (width - 1).toNat putdat
  putch (code (digitTable.getD (num % base.value) ' ')) putdat
termination_by num
decreasing_by
  have := base.two_le
  exact Nat.div_lt_self (by omega) (by omega)

/-! ## Strings -/

def strnlen : List Byte → Nat → Nat
  | [], _ => 0
  | _ :: _, 0 => 0
  | _ :: s, size + 1 => strnlen s size + 1

/-- The loop over the characters of a string: the width that is left. -/
def putString (altflag : Bool) : List Byte → Int → Int → σ → Int × σ
  | [], _, width, putdat => (width, putdat)
  | ch :: p, precision, width, putdat =>
      if 0 ≤ precision ∧ precision - 1 < 0 then (width, putdat)
      else
        let precision := if precision < 0 then precision else precision - 1
        let ch := ch.toInt
        let putdat :=
          if altflag ∧ (ch < code ' ' ∨ code '~' < ch) then putch (code '?') putdat
          else putch ch putdat
        putString altflag p precision (int32 (width - 1)) putdat

def nullString : CString := ⟨"(null)".toList.map character, by decide⟩

/-- The conversion `%s`. -/
def printString (directive : Directive) (p : Option CString) (putdat : σ) : σ :=
  let p := (p.getD nullString).bytes
  let (width, putdat) :=
    if 0 < directive.width ∧ directive.padc ≠ code '-' then
      let size := (BitVec.ofInt 32 directive.precision).toNat
      let width := int32 (directive.width - strnlen p size)
      (min width 0, putPads putch directive.padc width.toNat putdat)
    else (directive.width, putdat)
  let (width, putdat) := putString putch directive.altflag p directive.precision width putdat
  putPads putch (code ' ') width.toNat putdat

end Output

/-! ## The scanner -/

/-- The character at a position of the format. -/
def readFormat (format : CString) (position : Int) : Except FormatFault Int :=
  if position < 0 then throw .outside
  else
    match format.bytes[position.toNat]? with
    | some ch => return ch.toNat
    | none => if position.toNat = format.bytes.length then return 0 else throw .outside

/-- The loop over the digits of a width, after its first one. -/
def scanWidth (format : CString) : Nat → Int → Int → Int → Except FormatFault (Int × Int)
  | 0, _, _, _ => throw .endless
  | fuel + 1, fmt, ch, precision => do
      let precision := int32 (int32 (int32 (precision * 10) + ch) - code '0')
      let ch ← readFormat format fmt
      if ch < code '0' ∨ code '9' < ch then return (precision, fmt)
      else scanWidth format fuel (fmt + 1) ch precision

def Directive.processPrecision (directive : Directive) (precision : Int) : Directive :=
  if directive.width < 0 then { directive with width := precision, precision := -1 }
  else { directive with precision }

/-- From `reswitch` to the first character that sets no variable. -/
def scanDirective (args : Nat → Argument) (format : CString) :
    Nat → Directive → Nat → Int → Except FormatFault (Directive × Nat × Int × Int)
  | 0, _, _, _ => throw .endless
  | fuel + 1, directive, ap, fmt => do
      let ch ← readFormat format fmt
      let fmt := fmt + 1
      if ch = code '-' then
        scanDirective args format fuel { directive with padc := code '-' } ap fmt
      else if ch = code '0' then
        scanDirective args format fuel { directive with padc := code '0' } ap fmt
      else if code '1' ≤ ch ∧ ch ≤ code '9' then
        let (precision, fmt) ← scanWidth format fuel fmt ch 0
        scanDirective args format fuel (directive.processPrecision precision) ap fmt
      else if ch = code '*' then
        let precision := (args ap).int.toInt
        scanDirective args format fuel (directive.processPrecision precision) (ap + 1) fmt
      else if ch = code '.' then
        let width := if directive.width < 0 then 0 else directive.width
        scanDirective args format fuel { directive with width } ap fmt
      else if ch = code '#' then
        scanDirective args format fuel { directive with altflag := true } ap fmt
      else if ch = code 'l' then
        scanDirective args format fuel { directive with lflag := directive.lflag + 1 } ap fmt
      else return (directive, ap, ch, fmt)

/-- The loop that goes back to the last percent sign. -/
def rescan (format : CString) : Nat → Int → Except FormatFault Int
  | 0, _ => throw .endless
  | fuel + 1, fmt => do
      let fmt := fmt - 1
      let ch ← readFormat format (fmt - 1)
      if ch = code '%' then return fmt else rescan format fuel fmt

/-! ## Conversions -/

def getuint (argument : Argument) (lflag : Nat) : Nat :=
  if 2 ≤ lflag then argument.longLong.toNat else argument.int.toNat

def getint (argument : Argument) (lflag : Nat) : Int :=
  if 2 ≤ lflag then argument.longLong.toInt else argument.int.toInt

def maxError : Int := 100

def errorTable : List (Option CString) :=
  [none,
    some ⟨"unspecified error".toList.map character, by decide⟩,
    some ⟨"bad environment".toList.map character, by decide⟩,
    some ⟨"invalid parameter".toList.map character, by decide⟩,
    some ⟨"out of memory".toList.map character, by decide⟩,
    some ⟨"out of environments".toList.map character, by decide⟩,
    some ⟨"segmentation fault".toList.map character, by decide⟩]

/-- The entry of `error_string`, which is null from the last text on. -/
def errorString (err : Int) : Except FormatFault (Option CString) :=
  if maxError < err then return none
  else if err < 0 then throw .errorCode
  else return errorTable.getD err.toNat none

def errorFormat : CString := ⟨"error %d".toList.map character, by decide⟩

def stringFormat : CString := ⟨"%s".toList.map character, by decide⟩

section Format

variable (putch : Int → σ → σ)

/-- The conversions other than `%e`, if the character is one. -/
def convert (ch : Int) (directive : Directive) (args : Nat → Argument) (ap : Nat) (putdat : σ) :
    Option (Nat × σ) :=
  let number (num : Nat) (base : Base) (putdat : σ) :=
    printnum putch num base directive.width directive.padc putdat
  if ch = code 'c' then some (ap + 1, putch (args ap).int.toInt putdat)
  else if ch = code 's' then some (ap + 1, printString putch directive (args ap).string putdat)
  else if ch = code 'd' then
    let num := getint (args ap) directive.lflag
    let putdat := if num < 0 then putch (code '-') putdat else putdat
    some (ap + 1, number num.natAbs .decimal putdat)
  else if ch = code 'u' then
    some (ap + 1, number (getuint (args ap) directive.lflag) .decimal putdat)
  else if ch = code 'o' then
    some (ap, putch (code 'X') (putch (code 'X') (putch (code 'X') putdat)))
  else if ch = code 'p' then
    some (ap + 1, number (args ap).int.toNat .hexadecimal
      (putch (code 'x') (putch (code '0') putdat)))
  else if ch = code 'x' then
    some (ap + 1, number (getuint (args ap) directive.lflag) .hexadecimal putdat)
  else if ch = code '%' then some (ap, putch ch putdat)
  else none

/-- The format from the position `fmt` on, with the arguments from number `ap` on. -/
def vprintfmt : Nat → CString → (Nat → Argument) → Int → Nat → σ → Except FormatFault σ
  | 0, _, _, _, _, _ => throw .endless
  | fuel + 1, format, args, fmt, ap, putdat => do
      let ch ← readFormat format fmt
      let fmt := fmt + 1
      if ch ≠ code '%' then
        if ch = 0 then return putdat
        else vprintfmt fuel format args fmt ap (putch ch putdat)
      else
        let (directive, ap, ch, fmt) ← scanDirective args format fuel .initial ap fmt
        if ch = code 'e' then
          let err := (args ap).int.toInt
          let err := if err < 0 then int32 (-err) else err
          let putdat ← match ← errorString err with
            | none =>
                vprintfmt fuel errorFormat (fun _ => ⟨BitVec.ofInt 32 err, 0, none⟩) 0 0 putdat
            | some p => vprintfmt fuel stringFormat (fun _ => ⟨0, 0, some p⟩) 0 0 putdat
          vprintfmt fuel format args fmt (ap + 1) putdat
        else
          match convert putch ch directive args ap putdat with
          | some (ap, putdat) => vprintfmt fuel format args fmt ap putdat
          | none =>
              let putdat := putch (code '%') putdat
              let fmt ← rescan format fuel fmt
              vprintfmt fuel format args fmt ap putdat

end Format

/-! ## Output to a buffer -/

/-- `struct sprintbuf` and the memory that its pointers go to. -/
structure SprintBuf where
  buf : Nat
  ebuf : Nat
  cnt : Int
  memory : Nat → Byte

def sprintputch (ch : Int) (b : SprintBuf) : SprintBuf :=
  let b := { b with cnt := int32 (b.cnt + 1) }
  if b.buf < b.ebuf then
    { b with memory := Function.update b.memory b.buf (BitVec.ofInt 8 ch), buf := b.buf + 1 }
  else b

/-- The value of `vsnprintf`, where `-E_INVAL` is 3, and the memory after it. -/
def vsnprintf (fuel : Nat) (buf : Nat) (n : Int) (fmt : CString) (args : Nat → Argument)
    (memory : Nat → Byte) : Except FormatFault (Int × (Nat → Byte)) := do
  let b : SprintBuf := ⟨buf, buf + (n - 1).toNat, 0, memory⟩
  if buf = 0 ∨ n < 1 then return (3, memory)
  let b ← vprintfmt sprintputch fuel fmt args 0 0 b
  return (b.cnt, Function.update b.memory b.buf 0)

end FosKernel.Text
