import FosKernel.Console.Display
import FosKernel.Foundation.RingBuffer
import FosKernel.Text.CommandPrompt

/-! # The keyboard and the input buffer

Input from the keyboard and the serial line (`kern/console.c`). What a port delivers is an
argument: a byte for each time that its status register says that there is one.
-/

namespace FosKernel.Console

/-! ## Scan codes -/

abbrev shiftBit : BitVec 32 := 1 <<< 0

abbrev ctl : BitVec 32 := 1 <<< 1

abbrev alt : BitVec 32 := 1 <<< 2

abbrev capsLock : BitVec 32 := 1 <<< 3

abbrev numLock : BitVec 32 := 1 <<< 4

abbrev scrollLock : BitVec 32 := 1 <<< 5

abbrev e0Esc : BitVec 32 := 1 <<< 6

abbrev keyDel : Byte := 0xE9

def shiftcode (data : Byte) : BitVec 32 :=
  if data = 0x1D ∨ data = 0x9D then ctl
  else if data = 0x2A ∨ data = 0x36 then shiftBit
  else if data = 0x38 ∨ data = 0xB8 then alt
  else 0

def togglecode (data : Byte) : BitVec 32 :=
  if data = 0x3A then capsLock
  else if data = 0x45 then numLock
  else if data = 0x46 then scrollLock
  else 0

/-- The keys behind an escape code that the three maps share. -/
def extendedKey (data : Byte) : Byte :=
  if data = 0x97 then 0xE0
  else if data = 0xC8 then 0xE2
  else if data = 0xC9 then 0xE6
  else if data = 0xCB then 0xE4
  else if data = 0xCD then 0xE5
  else if data = 0xCF then 0xE1
  else if data = 0xD0 then 0xE3
  else if data = 0xD1 then 0xE7
  else if data = 0xD2 then 0xE8
  else if data = 0xD3 then keyDel
  else 0

/-- The codes of characters, with a blank for `NO`. -/
def keyRow (row : String) : List Byte :=
  row.toList.map fun char => if char = ' ' then 0 else Text.character char

def normalRows : List Byte :=
  [0, 0x1B] ++ keyRow "1234567890-=" ++ [0x08, 0x09] ++ keyRow "qwertyuiop[]" ++ [0x0A, 0] ++
    keyRow "asdfghjkl;'\x60" ++ [0] ++ keyRow "\\zxcvbnm,./" ++ [0] ++ keyRow "*" ++ [0, 0x20] ++
    List.replicate 13 0 ++ keyRow "789-456+1230." ++ List.replicate 4 0

def shiftRows : List Byte :=
  [0, 0x1B] ++ keyRow "!@#$%^&*()_+" ++ [0x08, 0x09] ++ keyRow "QWERTYUIOP\x7b\x7d" ++ [0x0A, 0] ++
    keyRow "ASDFGHJKL:\x22~" ++ [0] ++ keyRow "|ZXCVBNM<>?" ++ [0] ++ keyRow "*" ++ [0, 0x20] ++
    List.replicate 13 0 ++ keyRow "789-456+1230." ++ List.replicate 4 0

/-- `C(x)` for the characters of a row. -/
def controlRow (row : String) : List Byte :=
  row.toList.map fun char => if char = ' ' then 0 else Text.character char - Text.character '@'

def ctlRows : List Byte :=
  List.replicate 16 0 ++ controlRow "QWERTYUIOP  " ++ [0x0D, 0] ++
    controlRow "ASDFGHJKL    \\ZXCVBNM  /  "

def normalmap (data : Byte) : Byte :=
  if data = 0x9C then 0x0A
  else if data = 0xB5 then Text.character '/'
  else if data.toNat < normalRows.length then normalRows.getD data.toNat 0
  else extendedKey data

def shiftmap (data : Byte) : Byte :=
  if data = 0x9C then 0x0A
  else if data = 0xB5 then Text.character '/'
  else if data.toNat < shiftRows.length then shiftRows.getD data.toNat 0
  else extendedKey data

def ctlmap (data : Byte) : Byte :=
  if data = 0x39 then 0xFF
  else if data = 0xB5 then Text.character '/' - Text.character '@'
  else if data.toNat < ctlRows.length then ctlRows.getD data.toNat 0
  else extendedKey data

/-- `charcode[shift & (CTL | SHIFT)][data]` -/
def charcode (shift : BitVec 32) (data : Byte) : Byte :=
  if shift &&& ctl ≠ 0 then ctlmap data
  else if shift &&& shiftBit ≠ 0 then shiftmap data
  else normalmap data

/-! ## The console -/

abbrev consBufSize : Nat := 512

end FosKernel.Console

namespace FosKernel

open Console

/-- The state of the devices: `shift` is the variable of `kbd_proc_data`, `cons` the input
buffer, and `rebooted` says whether the reset port was written to. -/
structure Console where
  display : Display
  shift : BitVec 32
  rebooted : Bool
  serialExists : Bool
  cons : RingBuffer Byte consBufSize

namespace Console

/-- Nothing was typed yet. -/
def initial (display : Display) (serialExists : Bool) : Console :=
  ⟨display, 0, false, serialExists, ⟨fun _ => 0, 0, 0, by decide, by decide⟩⟩

/-- Remove the cell at the position; its two constants are not those of the last row. -/
def deleteCell (console : Console) : BitVec 32 × Console :=
  let display := console.display
  if 0 < display.textLength then
    if (display.crtPos.toNat : Int) = 1920 + display.textLength then (0, console)
    else
      let textLength := display.textLength - 1
      let crtPosLength := (display.crtPos.toNat : Int) - 1925
      let count := (textLength - crtPosLength + 1).toNat
      let crtBuf := copyUp display.crtBuf display.crtPos.toNat (display.crtPos.toNat + 1) count
      (keyDel.setWidth 32, { console with display := { display with textLength, crtBuf } })
  else (0, console)

def swapCase (c : BitVec 32) : BitVec 32 :=
  if 97 ≤ c.toInt ∧ c.toInt ≤ 122 then c + 65 - 97
  else if 65 ≤ c.toInt ∧ c.toInt ≤ 90 then c + 97 - 65
  else c

def processSpecialKeys (console : Console) (c : BitVec 32) : BitVec 32 × Console :=
  if console.shift = numLock ∧ 48 ≤ c.toInt ∧ c.toInt ≤ 57 then (0, console)
  else if c = 255 then (0, console)
  else if ~~~console.shift &&& (ctl ||| alt) = 0 ∧ c = keyDel.setWidth 32 then
    let display := console.display.cputs (Text.chars "Rebooting!\n")
    (c, { console with display, rebooted := true })
  else (c, console)

/-- For a byte that the controller has; zero where there is no character. -/
def kbdProcData (data : Byte) (console : Console) : BitVec 32 × Console :=
  if data = 0xE0 then (0, { console with shift := console.shift ||| e0Esc })
  else if data &&& 0x80 ≠ 0 then
    let data := if console.shift &&& e0Esc ≠ 0 then data else data &&& 0x7F
    (0, { console with shift := console.shift &&& ~~~(shiftcode data ||| e0Esc) })
  else
    let escaped := console.shift &&& e0Esc ≠ 0
    let data := if escaped then data ||| 0x80 else data
    let shift := if escaped then console.shift &&& ~~~e0Esc else console.shift
    let console := { console with shift := (shift ||| shiftcode data) ^^^ togglecode data }
    let c := (charcode console.shift data).setWidth 32
    if c = keyDel.setWidth 32 then console.deleteCell
    else console.processSpecialKeys (if console.shift &&& capsLock ≠ 0 then swapCase c else c)

def serialProcData (data : Byte) (console : Console) : BitVec 32 × Console :=
  (data.setWidth 32, console)

/-- `cons.buf[cons.wpos++] = c` -/
def stash (c : BitVec 32) (console : Console) : Console :=
  if c = 0 then console else { console with cons := console.cons.put (c.setWidth 8) }

/-- The port delivers `data`, and then there is nothing more. -/
def consIntr (proc : Byte → Console → BitVec 32 × Console) : List Byte → Console → Console
  | [], console => console
  | byte :: data, console =>
      let (c, console) := proc byte console
      consIntr proc data (console.stash c)

def serialIntr (data : List Byte) (console : Console) : Console :=
  if console.serialExists then consIntr serialProcData data console else console

def kbdIntr (data : List Byte) (console : Console) : Console := consIntr kbdProcData data console

/-- The next character of the buffer; zero if there is none. -/
def nextCharacter (console : Console) : BitVec 32 × Console :=
  match console.cons.take with
  | some (c, cons) => (c.setWidth 32, { console with cons })
  | none => (0, console)

/-- `cons_getc`, with what the ports deliver while they are polled. -/
def consGetc (serial keyboard : List Byte) (console : Console) : BitVec 32 × Console :=
  (kbdIntr keyboard (serialIntr serial console)).nextCharacter

/-- `cons_getc2`, which looks once at every port. -/
def consGetc2 (serial keyboard : Option Byte) (console : Console) : BitVec 32 × Console :=
  let console := serialIntr serial.toList console
  match keyboard with
  | none => (0, console)
  | some data =>
      let (c2, console) := kbdProcData data console
      let console := console.stash c2
      if 0 < c2.toInt then console.nextCharacter else (0, console)

/-- What goes on at the console. -/
inductive Event
  | getc (serial keyboard : List Byte)
  | getc2 (serial keyboard : Option Byte)
  | putc (c : BitVec 32)

/-- The value that the caller gets, and the console after the call. -/
def Event.run : Event → Console → BitVec 32 × Console
  | .getc serial keyboard, console => consGetc serial keyboard console
  | .getc2 serial keyboard, console => consGetc2 serial keyboard console
  | .putc c, console => (0, { console with display := console.display.consPutc c })

def runAll : List Event → Console → List (BitVec 32) × Console
  | [], console => ([], console)
  | event :: events, console =>
      let (c, console) := event.run console
      let (rest, console) := runAll events console
      (c :: rest, console)

end Console

end FosKernel
