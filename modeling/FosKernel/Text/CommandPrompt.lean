import FosKernel.Text.Strings

/-! # The command line editor

`command_prompt_readline` of `kern/command_prompt.c`, one key after the other. Every index
that is used on `buf` and every row index that is used on `command_history` is recorded;
the memory on both sides of the two arrays is there as well. The arrays of the completion
are taken to be long enough, and what is shown on the console is left out.
-/

namespace FosKernel.Text

/-- `BUFLEN` -/
def bufLen : Int := 1024

/-- `HISTORY_MAX` -/
def historyMax : Int := 19

def chars (s : String) : List Byte := s.toList.map character

def whitespace : CString := ⟨chars "\t\r\n ", by decide⟩

/-- The names in the table `commands`. -/
def commands : List String := [
  "help", "kernel_info", "wum", "rum", "wm", "rm", "rub", "kill", "rut", "aup", "meminfo",
  "schedMLFQ", "schedRR", "sched?", "schedTest", "run", "load", "runall", "printall", "killall",
  "lru", "fifo", "clock", "modifiedclock", "rep?", "uhfirstfit", "uhbestfit", "uhnextfit",
  "uhworstfit", "uheap?", "khcontalloc", "khfirstfit", "khbestfit", "khnextfit", "khworstfit",
  "kheap?", "nobuff", "buff", "nomodbuff", "modbuff", "modbufflength?", "modbufflength",
  "tstkmalloc", "tstkfree", "tstkphysaddr", "tstkvirtaddr", "tst3functions", "tstpriority1",
  "tstpriority2"]

/-- The names in the table of user programs. -/
def userPrograms : List String := [
  "fos_helloWorld", "fos_add", "fos_alloc", "fos_input", "fos_game", "fos_static_data_section",
  "fos_data_on_stack", "tpp", "tia", "tpr1", "tpr2", "tmlfq1", "cpuMLFQ1Slave_1",
  "cpuMLFQ1Slave_2", "tm1", "tm2", "tm3", "tf1", "tf2", "tnf", "tqsfh", "fact", "fib", "tqs",
  "qs", "ms1", "ms2", "tr1", "tr2", "tr3", "tfs", "ef_fib", "ef_fact", "ef_fos_add", "tef1",
  "ef_ms1", "ef_ms2", "tef2", "tbf1", "tbf2", "hp", "qs1", "qs2", "qs3", "qs4", "qs5",
  "tmodclk"]

inductive Access
  | buf (index : Int)
  | commandHistory (row : Int)
  deriving DecidableEq

/-- The variables of the editor. `commandHistory` is the memory by its offset from the first
row, `reading` says whether a line is being read. -/
structure Prompt where
  lastCommandIdx : Int
  commandHistory : Int → Byte
  prefixList : Int → List Byte
  buf : Int → Byte
  i : Int
  lastIndex : Int
  commandidx : Int
  prefixListIdx : Int
  prefixListSize : Int
  lastC : Int
  reading : Bool
  accesses : List Access

namespace Prompt

def touch (prompt : Prompt) (access : Access) : Prompt :=
  { prompt with accesses := access :: prompt.accesses }

def setBuf (prompt : Prompt) (index : Int) (value : Byte) : Prompt :=
  { prompt.touch (.buf index) with buf := Function.update prompt.buf index value }

/-- A loop that reads `count` characters from the index `start` on. -/
def readBuf (prompt : Prompt) (start : Int) : Nat → Prompt
  | 0 => prompt
  | count + 1 => (prompt.touch (.buf start)).readBuf (start + 1) count

/-- A loop that stores characters from the index `start` on. -/
def storeBuf (prompt : Prompt) (start : Int) : List Byte → Prompt
  | [] => prompt
  | char :: rest => (prompt.setBuf start char).storeBuf (start + 1) rest

/-- The string in `buf`. -/
def line (prompt : Prompt) : List Byte := text (fun index => prompt.buf index) 0

/-- The characters of `command_history[row]`. -/
def command (prompt : Prompt) (row : Int) (index : Int) : Byte :=
  prompt.commandHistory (bufLen * row + index)

/-- `memcpy(buf, empty, BUFLEN)` -/
def emptyBuf (prompt : Prompt) : Prompt :=
  { prompt with buf := fun index => if 0 ≤ index ∧ index < bufLen then 0 else prompt.buf index }

/-- `memcpy(command_history[row], source, BUFLEN)` -/
def copyCommand (prompt : Prompt) (row : Int) (source : Int → Byte) : Prompt :=
  { prompt.touch (.commandHistory row) with
    commandHistory := fun offset =>
      if bufLen * row ≤ offset ∧ offset < bufLen * row + bufLen then
        source (offset - bufLen * row)
      else prompt.commandHistory offset }

def clearAndWriteCommand (prompt : Prompt) : Prompt :=
  let prompt := prompt.touch (.commandHistory prompt.commandidx)
  let command := text (fun index => prompt.command prompt.commandidx index) 0
  let prompt := prompt.emptyBuf.storeBuf 0 command
  { prompt with i := command.length, lastIndex := command.length }

def roundAutoCompleteCommandWithTheSamePrefix (prompt : Prompt) (element : List Byte) : Prompt :=
  let prompt := prompt.emptyBuf.storeBuf 0 element
  { prompt with i := element.length, lastIndex := element.length }

/-- `PrefixList` has 100 rows. -/
def clearPrefixList (prompt : Prompt) : Prompt :=
  { prompt with
    prefixList := fun row => if 0 ≤ row ∧ row < 100 then [] else prompt.prefixList row }

/-! ## The keys -/

def upArrow (prompt : Prompt) : Prompt :=
  let prompt := if prompt.commandidx ≠ 0 then { prompt with commandidx := prompt.commandidx - 1 }
    else prompt
  prompt.clearAndWriteCommand

def downArrow (prompt : Prompt) : Prompt :=
  let prompt := if prompt.commandidx < prompt.lastCommandIdx then
    { prompt with commandidx := prompt.commandidx + 1 } else prompt
  if 0 ≤ prompt.lastCommandIdx then prompt.clearAndWriteCommand else prompt

/-- The rows that the loops over the tables have found, and the first of them in `buf`. -/
def offer (prompt : Prompt) (rows : List (List Byte)) : Prompt :=
  let prompt :=
    { prompt with
      prefixList := fun row =>
        if 0 ≤ row ∧ row < rows.length then rows[row.toNat]?.getD [] else prompt.prefixList row
      prefixListSize := rows.length }
  match rows with
  | [] => { prompt with lastC := 9 }
  | first :: _ =>
      let prompt := { prompt with prefixListIdx := 0 }
      let prompt := prompt.storeBuf 0 first
      let line := prompt.line
      let prompt := prompt.readBuf 0 line.length
      { prompt with i := line.length, lastIndex := line.length, lastC := 9 }

/-- The names that begin with a text. -/
def namesLike (start : List Byte) (names : List String) : List (List Byte) :=
  (names.map chars).filter fun name => strncmp start name start.length = 0

/-- The completion of the last argument by the name of a program. -/
def completeProgram (prompt : Prompt) (line argument : List Byte) : Prompt :=
  let temp := line.take (line.length - argument.length)
  let prompt := prompt.readBuf 0 temp.length
  -- `strcpy(buf, temp)`
  let prompt := (prompt.storeBuf 0 temp).setBuf temp.length 0
  let names := namesLike argument userPrograms
  let prompt := names.foldl (fun prompt _ => prompt.readBuf 0 temp.length) prompt
  prompt.offer (names.map fun name => temp ++ name)

def completeLine (prompt : Prompt) (line : List Byte) (split : Split) : Prompt :=
  let argument := fun k => text split.memory (split.argv k)
  if 1 < split.argc then
    if strcmp (argument 0) (chars "run") ≠ 0 ∧ strcmp (argument 0) (chars "load") ≠ 0 then
      prompt
    else prompt.completeProgram line (argument (split.argc - 1))
  else if split.argc = 1 then prompt.offer (namesLike (text split.memory 0) commands)
  else prompt.offer (namesLike (text split.memory 0) userPrograms)

/-- Where the loop is continued, `last_c` keeps its value. -/
def firstTab (prompt : Prompt) : Prompt :=
  let prompt := prompt.clearPrefixList
  let line := prompt.line
  if line.length = 0 ∨ prompt.lastC = 255 then prompt
  else
    let prompt := { prompt with prefixListSize := 0 }
    let prompt := prompt.touch (.buf (line.length - 1))
    if prompt.buf (line.length - 1) = character ' ' then prompt
    else
      match strsplit whitespace (line.length + 2) 0 (fun index => line.getD index 0)
        (fun _ => 0) with
      | .error _ => prompt
      | .ok split => prompt.completeLine line split

def nextTab (prompt : Prompt) : Prompt :=
  let prompt := if 0 < prompt.prefixListSize then
      let next := (prompt.prefixListIdx + 1).tmod prompt.prefixListSize
      let prompt := { prompt with prefixListIdx := next }
      prompt.roundAutoCompleteCommandWithTheSamePrefix (prompt.prefixList next)
    else prompt
  { prompt with lastC := 9 }

def leftArrow (prompt : Prompt) : Prompt :=
  if 0 < prompt.i then { prompt with i := prompt.i - 1 } else prompt

def rightArrow (prompt : Prompt) : Prompt :=
  if prompt.i < prompt.lastIndex then { prompt with i := prompt.i + 1 } else prompt

/-- The loop that moves `count` characters from the index `var` on. -/
def moveBack (prompt : Prompt) (var : Int) : Nat → Prompt
  | 0 => prompt
  | count + 1 =>
      ((prompt.touch (.buf (var + 1))).setBuf var (prompt.buf (var + 1))).moveBack (var + 1) count

def deleteKey (prompt : Prompt) : Prompt :=
  let prompt := prompt.moveBack prompt.i (prompt.lastIndex + 1 - prompt.i).toNat
  { prompt with lastIndex := prompt.lastIndex - 1 }

def printable (prompt : Prompt) (c : Int) : Prompt :=
  let prompt := prompt.setBuf prompt.i (BitVec.ofInt 8 c)
  { prompt with i := prompt.i + 1, lastIndex := int32 (prompt.lastIndex + 1) }

def backspace (prompt : Prompt) : Prompt :=
  let prompt := (prompt.touch (.buf prompt.i)).setBuf (prompt.i - 1) (prompt.buf prompt.i)
  { prompt with i := prompt.i - 1 }

/-- The oldest command makes place. -/
def shiftHistory (prompt : Prompt) (idx : Int) : Nat → Prompt
  | 0 => prompt
  | count + 1 =>
      ((prompt.touch (.commandHistory (idx + 1))).copyCommand idx
        (prompt.command (idx + 1))).shiftHistory (idx + 1) count

/-- A command that is the same as the last one is not stored again. -/
def saveCommand (prompt : Prompt) : Prompt :=
  if prompt.lastCommandIdx = historyMax then
    let prompt := prompt.shiftHistory 0 historyMax.toNat
    prompt.copyCommand historyMax prompt.buf
  else
    let prompt := prompt.touch (.commandHistory prompt.lastCommandIdx)
    let last := text (fun index => prompt.command prompt.lastCommandIdx index) 0
    if strcmp last prompt.line ≠ 0 then
      let prompt := { prompt with lastCommandIdx := prompt.lastCommandIdx + 1 }
      prompt.copyCommand prompt.lastCommandIdx prompt.buf
    else prompt

def enter (prompt : Prompt) : Prompt :=
  { (prompt.setBuf prompt.lastIndex 0).saveCommand with reading := false }

def handleKey (prompt : Prompt) (c : Int) : Prompt :=
  if c < 0 then { prompt with reading := false }
  else if c = 226 then { prompt.upArrow with lastC := c }
  else if c = 227 then { prompt.downArrow with lastC := c }
  else if c = 9 then if prompt.lastC ≠ 9 then prompt.firstTab else prompt.nextTab
  else if c = 228 then { prompt.leftArrow with lastC := c }
  else if c = 229 then { prompt.rightArrow with lastC := c }
  else if c = 0xE9 ∧ 0 < prompt.i then { prompt.deleteKey with lastC := c }
  else if ((character ' ').toNat : Int) ≤ c ∧ prompt.i < bufLen - 1 ∧ c ≠ 229 ∧
      c ≠ 228 then
    { prompt.printable c with lastC := c }
  else if c = 8 ∧ 0 < prompt.i then { prompt.backspace with lastC := c }
  else if c = 10 ∨ c = 13 then prompt.enter
  else { prompt with lastC := c }

/-- The line ends behind the cursor. -/
def extendLine (prompt : Prompt) : Prompt :=
  if prompt.lastIndex < prompt.i then { prompt with lastIndex := prompt.i } else prompt

/-- One round of the loop, for the value `c` of `getchar`. -/
def pressKey (prompt : Prompt) (c : Int) : Prompt :=
  { prompt with accesses := [] }.extendLine.handleKey c

/-- `memset(command_line, 0, sizeof(command_line))` and the call of
`command_prompt_readline`. Two of its variables begin with what is on the stack. -/
def readline (prompt : Prompt) (lastC prefixListSize : Int) : Prompt :=
  { prompt.emptyBuf with
    commandidx := prompt.lastCommandIdx + 1
    prefixListIdx := 0
    lastIndex := 0
    i := 0
    prefixListSize := prefixListSize
    lastC := lastC
    reading := true
    accesses := [] }

end Prompt

end FosKernel.Text
