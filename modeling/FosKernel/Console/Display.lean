import FosKernel.Text.Pointers

/-! # The display

Output to the text-mode display and to the parallel port (`kern/console.c`). The cells of the
display are numbered from `crt_buf` on; the memory behind the last of them is there as well.
-/

namespace FosKernel.Console

abbrev Cell := BitVec 16

abbrev crtCols : Nat := 80

abbrev crtRows : Nat := 25

abbrev crtSize : Nat := crtRows * crtCols

abbrev keyLeft : BitVec 32 := 0xE4

abbrev keyRight : BitVec 32 := 0xE5

/-- The memory of the display with the variables `crt_pos` and `text_length`, the registers of
the 6845, and what was sent to the parallel port. -/
structure Display where
  crtBuf : Nat → Cell
  crtPos : BitVec 16
  textLength : Int
  registers : Nat → Byte
  printed : List Byte

namespace Display

/-- The position that the cursor is shown at. -/
def cursor (display : Display) : BitVec 16 :=
  (display.registers 14).setWidth 16 <<< 8 ||| (display.registers 15).setWidth 16

/-- `crt_buf` is where the memory was found. -/
def cgaInit (display : Display) : Display := { display with crtPos := display.cursor }

def lptPutc (display : Display) (c : BitVec 32) : Display :=
  { display with printed := display.printed ++ [c.setWidth 8] }

def setCell (display : Display) (index : Nat) (cell : Cell) : Display :=
  { display with crtBuf := Function.update display.crtBuf index cell }

/-- A character without an attribute gets the one for white on black. -/
def withAttribute (c : BitVec 32) : BitVec 32 :=
  if c &&& ~~~0xFF = 0 then c ||| 0x0700 else c

def carriageReturn (display : Display) : Display :=
  { display with crtPos := display.crtPos - display.crtPos % 80 }

def lineFeed (display : Display) : Display :=
  { display with crtPos := display.crtPos + 80, textLength := 0 }

def backspace (display : Display) (c : BitVec 32) : Display :=
  if 0 < display.crtPos then
    let display := { display with crtPos := display.crtPos - 1 }
    display.setCell display.crtPos.toNat (((c &&& ~~~0xFF) ||| 0x20).setWidth 16)
  else display

def moveLeft (display : Display) : Display :=
  if 0 < display.crtPos then { display with crtPos := display.crtPos - 1 } else display

def moveRight (display : Display) : Display :=
  if display.crtPos.toNat < crtSize then { display with crtPos := display.crtPos + 1 }
  else display

def writeCharacter (display : Display) (c : BitVec 32) : Display :=
  if c ≠ keyLeft ∧ c ≠ keyRight then
    let display := display.setCell display.crtPos.toNat (c.setWidth 16)
    let display := { display with crtPos := display.crtPos + 1 }
    if (1920 : Int) + display.textLength < display.crtPos.toNat then
      { display with textLength := display.textLength + 1 }
    else display
  else display

/-- `for (i = CRT_SIZE - CRT_COLS; i < CRT_SIZE; i++)` -/
def blankRow (crtBuf : Nat → Cell) (start : Nat) : Nat → Nat → Cell
  | 0 => crtBuf
  | count + 1 => blankRow (Function.update crtBuf start 0x0720) (start + 1) count

/-- The rows move up when the position is behind the last one. -/
def scroll (display : Display) : Display :=
  if crtSize ≤ display.crtPos.toNat then
    let crtBuf := Text.Pointers.memcpy display.crtBuf 0 crtCols (crtSize - crtCols)
    { display with
      crtBuf := blankRow crtBuf (crtSize - crtCols) crtCols
      crtPos := display.crtPos - 80 }
  else display

/-- The position goes to the registers for the cursor. -/
def moveCursor (display : Display) : Display :=
  let registers := Function.update display.registers 14 ((display.crtPos >>> 8).setWidth 8)
  { display with registers := Function.update registers 15 (display.crtPos.setWidth 8) }

/-- `cga_putc`, where `tab` stands for the five calls that a tab is made of. -/
def cgaPutcWith (tab : Display → Display) (display : Display) (c : BitVec 32) : Display :=
  let c := withAttribute c
  let key := c &&& 0xFF
  let display :=
    if key = 0x08 then display.backspace c
    else if key = 0x0A then display.lineFeed.carriageReturn
    else if key = 0x0D then display.carriageReturn
    else if key = 0x09 then tab display
    else if key = 228 then display.moveLeft
    else if key = 229 then display.moveRight
    else display.writeCharacter c
  display.scroll.moveCursor

/-- `cons_putc(' ')` -/
def putSpace (display : Display) : Display := (display.lptPutc 0x20).cgaPutcWith id 0x20

def cgaPutc (display : Display) (c : BitVec 32) : Display :=
  display.cgaPutcWith (fun display => display.putSpace.putSpace.putSpace.putSpace.putSpace) c

def consPutc (display : Display) (c : BitVec 32) : Display := (display.lptPutc c).cgaPutc c

theorem cgaPutcWith_plain {tab other : Display → Display} {display : Display} {c : BitVec 32}
    (plain : withAttribute c &&& 0xFF ≠ 0x09) :
    display.cgaPutcWith tab c = display.cgaPutcWith other c := by
  simp only [cgaPutcWith, if_neg plain]

/-- The calls inside of `cga_putc` are calls of `cons_putc`. -/
theorem consPutc_space (display : Display) : display.consPutc 0x20 = display.putSpace := by
  unfold consPutc cgaPutc putSpace
  exact cgaPutcWith_plain (by decide)

/-- `cputchar` for each character of a string. -/
def cputs (display : Display) (s : List Byte) : Display :=
  s.foldl (fun display char => display.consPutc (char.setWidth 32)) display

/-- An empty display with the cursor in its first cell. -/
def empty : Display := ⟨fun _ => 0x0720, 0, 0, fun _ => 0, []⟩

end Display

end FosKernel.Console
