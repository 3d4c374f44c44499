import FosKernel.Text.CommandPrompt
import FosKernel.Properties.StringSplit

/-! # The editor stays in its arrays

The end of the line only grows while keys are typed over, and is compared with the size of
the buffer nowhere; the rows of the history are taken one below and one above the array.
Between these the editor stays within its arrays.
-/

namespace FosKernel.CommandLine

open Text StringSplit

def inRange : Access → Prop
  | .buf index => 0 ≤ index ∧ index ≤ bufLen - 1
  | .commandHistory row => 0 ≤ row ∧ row ≤ historyMax

/-- The rows of the history are strings, and the last of them is known. -/
structure History (prompt : Prompt) : Prop where
  ended : ∀ row, 0 ≤ row → row ≤ historyMax → prompt.command row (bufLen - 1) = 0
  lower : -1 ≤ prompt.lastCommandIdx
  upper : prompt.lastCommandIdx ≤ historyMax

/-- While a line is read, between two keys. -/
structure Editing (prompt : Prompt) : Prop extends History prompt where
  bufEnded : prompt.buf (bufLen - 1) = 0
  row : 0 ≤ prompt.commandidx
  rowUpper : prompt.commandidx ≤ prompt.lastCommandIdx + 1
  cursor : 0 ≤ prompt.i

/-- The accesses of the current key are allowed. -/
structure Safe (allowed : Access → Prop) (prompt : Prompt) : Prop extends Editing prompt where
  confined : ∀ access ∈ prompt.accesses, allowed access

theorem command_copyCommand {prompt : Prompt} {row other index : Int} {source : Int → Byte}
    (lower : 0 ≤ index) (upper : index < bufLen) :
    (prompt.copyCommand row source).command other index =
      if other = row then source index else prompt.command other index := by
  have size : bufLen = 1024 := rfl
  rw [size] at upper
  simp only [Prompt.command, Prompt.copyCommand]
  by_cases same : other = row
  · subst same
    rw [if_pos rfl, if_pos (by rw [size]; omega)]
    congr 1
    omega
  · rw [if_neg same, if_neg (by rw [size]; omega)]

/-- An array of `BUFLEN` characters with a NUL at its end. -/
theorem text_length {memory : Int → Byte} (ended : memory (bufLen - 1) = 0) :
    ((text (fun index => memory index) 0).length : Int) ≤ bufLen - 1 := by
  have bound : (text (fun index => memory index) 0).length ≤ 1023 :=
    textFrom_length_le (by simpa [bufLen] using ended)
  simp only [bufLen]
  omega

section Steps

variable {allowed : Access → Prop} {prompt : Prompt}

theorem Safe.touch (safe : Safe allowed prompt) {access : Access} (within : allowed access) :
    Safe allowed (prompt.touch access) where
  toEditing := ⟨⟨safe.ended, safe.lower, safe.upper⟩, safe.bufEnded, safe.row, safe.rowUpper,
    safe.cursor⟩
  confined := by
    intro other member
    rcases List.mem_cons.mp member with rfl | before
    · exact within
    · exact safe.confined other before

theorem Safe.ite {condition : Prop} [Decidable condition] {yes no : Prompt}
    (whenTrue : condition → Safe allowed yes) (whenFalse : ¬condition → Safe allowed no) :
    Safe allowed (if condition then yes else no) := by
  split
  · exact whenTrue ‹_›
  · exact whenFalse ‹_›

variable (all : ∀ access, inRange access → allowed access)

include all

theorem Safe.setBuf (safe : Safe allowed prompt) {index : Int} {value : Byte} (lower : 0 ≤ index)
    (upper : index ≤ bufLen - 1) (kept : index = bufLen - 1 → value = 0) :
    Safe allowed (prompt.setBuf index value) where
  toHistory := ⟨safe.ended, safe.lower, safe.upper⟩
  bufEnded := by
    by_cases last : index = bufLen - 1
    · rw [last, kept last]
      exact Function.update_self (bufLen - 1) (0 : Byte) prompt.buf
    · exact (Function.update_of_ne (Ne.symm last) _ _).trans safe.bufEnded
  row := safe.row
  rowUpper := safe.rowUpper
  cursor := safe.cursor
  confined := (safe.touch (all (.buf index) ⟨lower, upper⟩)).confined

theorem Safe.readBuf (safe : Safe allowed prompt) {start : Int} {count : Nat}
    (lower : 0 ≤ start) (upper : start + count ≤ bufLen) :
    Safe allowed (prompt.readBuf start count) := by
  induction count generalizing prompt start with
  | zero => exact safe
  | succ count induction =>
      have touched := safe.touch (all (.buf start) ⟨lower, by omega⟩)
      exact induction touched (by omega) (by omega)

theorem Safe.storeBuf (safe : Safe allowed prompt) {start : Int} {bytes : List Byte}
    (lower : 0 ≤ start) (upper : start + bytes.length < bufLen) :
    Safe allowed (prompt.storeBuf start bytes) := by
  induction bytes generalizing prompt start with
  | nil => exact safe
  | cons char rest induction =>
      rw [List.length_cons] at upper
      have stored : Safe allowed (prompt.setBuf start char) :=
        safe.setBuf all lower (by omega) (by omega)
      exact induction stored (by omega) (by omega)

omit all in
theorem Safe.emptyBuf (safe : Safe allowed prompt) : Safe allowed prompt.emptyBuf where
  toHistory := ⟨safe.ended, safe.lower, safe.upper⟩
  bufEnded := by
    simp [Prompt.emptyBuf, bufLen]
  row := safe.row
  rowUpper := safe.rowUpper
  cursor := safe.cursor
  confined := safe.confined

theorem Safe.copyCommand (safe : Safe allowed prompt) {row : Int} {source : Int → Byte}
    (lower : 0 ≤ row) (upper : row ≤ historyMax) (ended : source (bufLen - 1) = 0) :
    Safe allowed (prompt.copyCommand row source) where
  ended := by
    intro other otherLower otherUpper
    rw [command_copyCommand (by decide) (by decide)]
    split
    · exact ended
    · exact safe.ended other otherLower otherUpper
  lower := safe.lower
  upper := safe.upper
  bufEnded := safe.bufEnded
  row := safe.row
  rowUpper := safe.rowUpper
  cursor := safe.cursor
  confined := (safe.touch (all (.commandHistory row) ⟨lower, upper⟩)).confined

/-! ## The history keys -/

/-- The line is replaced by a shorter one than the buffer, with the cursor behind it. -/
theorem Safe.replaceLine (safe : Safe allowed prompt) {bytes : List Byte}
    (short : (bytes.length : Int) < bufLen) :
    Safe allowed (prompt.roundAutoCompleteCommandWithTheSamePrefix bytes) := by
  have stored := safe.emptyBuf.storeBuf all (Int.le_refl 0) (by rwa [Int.zero_add])
  exact { stored with cursor := Int.natCast_nonneg _ }

theorem Safe.clearAndWriteCommand (safe : Safe allowed prompt)
    (upper : prompt.commandidx ≤ historyMax) : Safe allowed prompt.clearAndWriteCommand := by
  have within : inRange (.commandHistory prompt.commandidx) := ⟨safe.row, upper⟩
  have short := text_length (safe.ended prompt.commandidx safe.row upper)
  exact (safe.touch (all _ within)).replaceLine all (Int.lt_of_le_sub_one short)

theorem Safe.upArrow (safe : Safe allowed prompt) : Safe allowed prompt.upArrow := by
  have upper := safe.upper
  have rowUpper := safe.rowUpper
  unfold Prompt.upArrow
  by_cases first : prompt.commandidx = 0
  · rw [if_neg (by simpa using first)]
    exact safe.clearAndWriteCommand all (by rw [first]; decide)
  · have moved : Safe allowed { prompt with commandidx := prompt.commandidx - 1 } :=
      { safe with
        row := by have := safe.row; change 0 ≤ prompt.commandidx - 1; omega
        rowUpper := by change prompt.commandidx - 1 ≤ prompt.lastCommandIdx + 1; omega }
    rw [if_pos first]
    exact moved.clearAndWriteCommand all (by change prompt.commandidx - 1 ≤ historyMax; omega)

theorem Safe.downArrow (safe : Safe allowed prompt)
    (notPast : ¬(prompt.lastCommandIdx = historyMax ∧ prompt.commandidx = historyMax + 1)) :
    Safe allowed prompt.downArrow := by
  have upper := safe.upper
  have rowUpper := safe.rowUpper
  unfold Prompt.downArrow
  by_cases earlier : prompt.commandidx < prompt.lastCommandIdx
  · have moved : Safe allowed { prompt with commandidx := prompt.commandidx + 1 } :=
      { safe with
        row := by have := safe.row; change 0 ≤ prompt.commandidx + 1; omega
        rowUpper := by change prompt.commandidx + 1 ≤ prompt.lastCommandIdx + 1; omega }
    rw [if_pos earlier]
    dsimp only
    split
    · exact moved.clearAndWriteCommand all (by change prompt.commandidx + 1 ≤ historyMax; omega)
    · exact moved
  · rw [if_neg earlier]
    dsimp only
    split
    · exact safe.clearAndWriteCommand all (by omega)
    · exact safe

/-! ## The keys that edit the line -/

omit all in
theorem Safe.leftArrow (safe : Safe allowed prompt) : Safe allowed prompt.leftArrow := by
  unfold Prompt.leftArrow
  split
  · exact { safe with cursor := by change 0 ≤ prompt.i - 1; omega }
  · exact safe

omit all in
theorem Safe.rightArrow (safe : Safe allowed prompt) : Safe allowed prompt.rightArrow := by
  have cursor := safe.cursor
  unfold Prompt.rightArrow
  split
  · exact { safe with cursor := by change 0 ≤ prompt.i + 1; omega }
  · exact safe

theorem Safe.moveBack (safe : Safe allowed prompt) {var : Int} {count : Nat} (lower : 0 ≤ var)
    (upper : var + count < bufLen) : Safe allowed (prompt.moveBack var count) := by
  induction count generalizing prompt var with
  | zero => exact safe
  | succ count induction =>
      have read := safe.touch (all (.buf (var + 1)) ⟨by omega, by omega⟩)
      have stored : Safe allowed ((prompt.touch _).setBuf var (prompt.buf (var + 1))) :=
        read.setBuf all lower (by omega) (by omega)
      exact induction stored (by omega) (by omega)

theorem Safe.deleteKey (safe : Safe allowed prompt) (within : prompt.i ≤ prompt.lastIndex)
    (room : prompt.lastIndex + 1 < bufLen) : Safe allowed prompt.deleteKey := by
  have moved : Safe allowed (prompt.moveBack prompt.i (prompt.lastIndex + 1 - prompt.i).toNat) :=
    safe.moveBack all safe.cursor (by omega)
  exact { moved with }

theorem Safe.printable (safe : Safe allowed prompt) (room : prompt.i < bufLen - 1) (c : Int) :
    Safe allowed (prompt.printable c) := by
  have cursor := safe.cursor
  have stored : Safe allowed (prompt.setBuf prompt.i (BitVec.ofInt 8 c)) :=
    safe.setBuf all cursor (by omega) (by omega)
  exact { stored with cursor := by change 0 ≤ prompt.i + 1; omega }

theorem Safe.backspace (safe : Safe allowed prompt) (positive : 0 < prompt.i)
    (room : prompt.i < bufLen) : Safe allowed prompt.backspace := by
  have read := safe.touch (all (.buf prompt.i) ⟨by omega, by omega⟩)
  have stored : Safe allowed ((prompt.touch _).setBuf (prompt.i - 1) (prompt.buf prompt.i)) :=
    read.setBuf all (by omega) (by omega) (by omega)
  exact { stored with cursor := by change 0 ≤ prompt.i - 1; omega }

/-! ## The end of the line -/

theorem Safe.shiftHistory (safe : Safe allowed prompt) {idx : Int} {count : Nat}
    (lower : 0 ≤ idx) (upper : idx + count ≤ historyMax) :
    Safe allowed (prompt.shiftHistory idx count) := by
  induction count generalizing prompt idx with
  | zero => exact safe
  | succ count induction =>
      have read := safe.touch (all (.commandHistory (idx + 1)) ⟨by omega, by omega⟩)
      have copied := read.copyCommand all lower (by omega)
        (safe.ended (idx + 1) (by omega) (by omega))
      exact induction copied (by omega) (by omega)

theorem Safe.saveCommand (safe : Safe allowed prompt)
    (compared : allowed (.commandHistory prompt.lastCommandIdx)) :
    Safe allowed prompt.saveCommand := by
  have lower := safe.lower
  have upper := safe.upper
  unfold Prompt.saveCommand
  split
  · have shifted : Safe allowed (prompt.shiftHistory 0 historyMax.toNat) :=
      safe.shiftHistory all (Int.le_refl 0) (by decide)
    exact shifted.copyCommand all (by decide) (by decide) shifted.bufEnded
  · dsimp only
    split
    · have next : Safe allowed { prompt.touch (.commandHistory prompt.lastCommandIdx) with
          lastCommandIdx := prompt.lastCommandIdx + 1 } :=
        { safe.touch compared with
          lower := by change -1 ≤ prompt.lastCommandIdx + 1; omega
          upper := by change prompt.lastCommandIdx + 1 ≤ historyMax; omega
          rowUpper := by
            have := safe.rowUpper
            change prompt.commandidx ≤ prompt.lastCommandIdx + 1 + 1
            omega }
      refine next.copyCommand all ?_ ?_ safe.bufEnded
      · change 0 ≤ prompt.lastCommandIdx + 1
        omega
      · exact next.upper
    · exact safe.touch compared

theorem Safe.enter (safe : Safe allowed prompt) (lower : 0 ≤ prompt.lastIndex)
    (room : prompt.lastIndex < bufLen)
    (compared : allowed (.commandHistory prompt.lastCommandIdx)) : Safe allowed prompt.enter := by
  have ended : Safe allowed (prompt.setBuf prompt.lastIndex 0) :=
    safe.setBuf all lower (by omega) fun _ => rfl
  exact { ended.saveCommand all compared with }

/-! ## Completion -/

theorem Safe.offer (safe : Safe allowed prompt) {rows : List (List Byte)}
    (short : ∀ row ∈ rows, (row.length : Int) < bufLen) : Safe allowed (prompt.offer rows) := by
  unfold Prompt.offer
  cases rows with
  | nil => exact { safe with }
  | cons first rest =>
      have begun : Safe allowed { prompt with
          prefixList := fun row =>
            if 0 ≤ row ∧ row < (first :: rest).length then (first :: rest)[row.toNat]?.getD []
            else prompt.prefixList row
          prefixListSize := (first :: rest).length
          prefixListIdx := 0 } := { safe with }
      have stored := begun.storeBuf all (Int.le_refl 0)
        (by rw [Int.zero_add]; exact short first List.mem_cons_self)
      have bound := Int.lt_of_le_sub_one (text_length stored.bufEnded)
      have shown := stored.readBuf all (Int.le_refl 0)
        (by rw [Int.zero_add]; exact Int.le_of_lt bound)
      exact { shown with cursor := Int.natCast_nonneg _ }

omit all in
theorem namesLike_short {start : List Byte} {names : List String}
    (short : ∀ name ∈ names, ((chars name).length : Int) < bufLen) :
    ∀ name ∈ Prompt.namesLike start names, (name.length : Int) < bufLen := by
  intro name member
  rcases List.mem_map.mp (List.mem_filter.mp member).1 with ⟨word, listed, rfl⟩
  exact short word listed

theorem Safe.completeProgram (safe : Safe allowed prompt) {line argument : List Byte}
    (short : (line.length : Int) ≤ bufLen - 1)
    (fits : ∀ name ∈ Prompt.namesLike argument userPrograms,
      ((line.length - argument.length + name.length : Nat) : Int) < bufLen) :
    Safe allowed (prompt.completeProgram line argument) := by
  have size : (line.take (line.length - argument.length)).length =
      line.length - argument.length := by
    rw [List.length_take]
    omega
  have readOver : ∀ {names : List (List Byte)} {prompt : Prompt}, Safe allowed prompt →
      Safe allowed (names.foldl (fun prompt _ =>
        prompt.readBuf 0 (line.take (line.length - argument.length)).length) prompt) := by
    intro names
    induction names with
    | nil => exact fun safe => safe
    | cons name names induction =>
        exact fun safe => induction (safe.readBuf all (Int.le_refl 0) (by omega))
  have read := safe.readBuf all (Int.le_refl 0)
    (show 0 + ((line.take (line.length - argument.length)).length : Int) ≤ bufLen by omega)
  have stored := (read.storeBuf all (Int.le_refl 0)
    (show 0 + ((line.take (line.length - argument.length)).length : Int) < bufLen by omega)).setBuf
      all (Int.natCast_nonneg _)
      (show ((line.take (line.length - argument.length)).length : Int) ≤ bufLen - 1 by omega)
      fun _ => rfl
  refine (readOver stored).offer all ?_
  intro row member
  rcases List.mem_map.mp member with ⟨name, listed, rfl⟩
  rw [List.length_append, size]
  exact fits name listed

omit all in
theorem table_short : (∀ name ∈ commands, ((chars name).length : Int) < bufLen) ∧
    ∀ name ∈ userPrograms, ((chars name).length : Int) < bufLen := by
  constructor <;> decide +kernel

/-- The last argument that is found in the line is to be completed by the name of a program. -/
structure Completing (prompt : Prompt) (argument : List Byte) : Prop where
  several : 1 < (words (splits whitespace) prompt.line).length
  command : ∀ word, (words (splits whitespace) prompt.line)[0]? = some word →
    strcmp word (chars "run") = 0 ∨ strcmp word (chars "load") = 0
  last : (words (splits whitespace) prompt.line)[
    min (words (splits whitespace) prompt.line).length (maxArguments - 1) - 1]? = some argument
  unfinished : prompt.buf (prompt.line.length - 1) ≠ character ' '

/-- With each of the programs that the last argument may stand for, the line is shorter than
the buffer. -/
def CompletionFits (prompt : Prompt) : Prop :=
  ∀ argument, Completing prompt argument →
    ∀ name ∈ Prompt.namesLike argument userPrograms,
      ((prompt.line.length - argument.length + name.length : Nat) : Int) < bufLen

theorem Safe.completeLine (safe : Safe allowed prompt) {line : List Byte} {split : Split}
    (short : (line.length : Int) ≤ bufLen - 1)
    (fits : 1 < split.argc →
      (strcmp (text split.memory (split.argv 0)) (chars "run") = 0 ∨
        strcmp (text split.memory (split.argv 0)) (chars "load") = 0) →
      ∀ name ∈ Prompt.namesLike (text split.memory (split.argv (split.argc - 1))) userPrograms,
        ((line.length - (text split.memory (split.argv (split.argc - 1))).length + name.length :
          Nat) : Int) < bufLen) :
    Safe allowed (prompt.completeLine line split) := by
  unfold Prompt.completeLine
  dsimp only
  split
  · rename_i several
    split
    · exact safe
    · rename_i command
      apply safe.completeProgram all short
      apply fits several
      by_cases run : strcmp (text split.memory (split.argv 0)) (chars "run") = 0
      · exact .inl run
      · exact .inr (not_not.mp fun load => command ⟨run, load⟩)
  · split
    · exact safe.offer all (namesLike_short table_short.1)
    · exact safe.offer all (namesLike_short table_short.2)

theorem Safe.firstTab (safe : Safe allowed prompt)
    (fits : prompt.lastC ≠ 255 → CompletionFits prompt) : Safe allowed prompt.firstTab := by
  have cleared : Safe allowed prompt.clearPrefixList := { safe with }
  have sameLine : prompt.clearPrefixList.line = prompt.line := rfl
  have short := text_length safe.bufEnded
  change (prompt.line.length : Int) ≤ bufLen - 1 at short
  unfold Prompt.firstTab
  simp only [sameLine]
  split
  · exact cleared
  · rename_i started
    rw [not_or] at started
    have inside : inRange (.buf (prompt.line.length - 1)) := by
      have := started.1
      exact ⟨by omega, by omega⟩
    have emptied : Safe allowed { prompt.clearPrefixList with prefixListSize := 0 } :=
      { cleared with }
    have read := emptied.touch (all _ inside)
    split
    · exact read
    · rename_i unfinished
      have nonzero : ∀ char ∈ prompt.line, char ≠ 0 := textFrom_nonzero
      rcases @strsplit_ok whitespace _ (fun _ => 0) 0 _ (StringAt.ofList nonzero)
        (prompt.line.length + 2) (Nat.le_refl _) with ⟨split, ran, tokens⟩
      rw [ran]
      dsimp only
      apply read.completeLine all short
      intro several command name member
      have counted := tokens.counted
      rw [Nat.zero_add] at counted
      have arguments : ∀ k < split.argc,
          (words (splits whitespace) prompt.line)[k]? =
            some (text split.memory (split.argv k)) := by
        intro k below
        have inside : k < (words (splits whitespace) prompt.line).length := by omega
        have argument := tokens.arguments k inside (by omega)
        rw [Nat.zero_add] at argument
        have bound := word_length (List.getElem_mem inside)
        have size : bufLen = 1024 := rfl
        rw [List.getElem?_eq_getElem inside, text, argument.textFrom (by omega)]
      apply fits (fun last => started.2 last) _ ?_ name member
      constructor
      case several => omega
      case command =>
        intro word first
        rw [arguments 0 (by omega), Option.some.injEq] at first
        rwa [← first]
      case last =>
        rw [← counted]
        exact arguments (split.argc - 1) (by omega)
      case unfinished => exact unfinished

theorem Safe.nextTab (safe : Safe allowed prompt)
    (fits : 0 < prompt.prefixListSize →
      ((prompt.prefixList ((prompt.prefixListIdx + 1).tmod prompt.prefixListSize)).length : Int) <
        bufLen) : Safe allowed prompt.nextTab := by
  unfold Prompt.nextTab
  dsimp only
  split
  · rename_i some
    have chosen : Safe allowed { prompt with
        prefixListIdx := (prompt.prefixListIdx + 1).tmod prompt.prefixListSize } :=
      { safe with }
    exact { chosen.replaceLine all (fits some) with }
  · exact { safe with }

end Steps

/-! ## One key -/

def Enters (c : Int) : Prop := c = 10 ∨ c = 13

instance (c : Int) : Decidable (Enters c) := inferInstanceAs (Decidable (_ ∨ _))

/-- The key does not lead out of the line or past the newest command. -/
structure Fits (prompt : Prompt) (c : Int) : Prop where
  enter : Enters c → max prompt.i prompt.lastIndex < bufLen
  delete : c = 0xE9 → 0 < prompt.i → max prompt.i prompt.lastIndex + 1 < bufLen
  backspace : c = 8 → prompt.i < bufLen
  down : c = 227 →
    ¬(prompt.lastCommandIdx = historyMax ∧ prompt.commandidx = historyMax + 1)
  complete : c = 9 → prompt.lastC ≠ 9 → prompt.lastC ≠ 255 → CompletionFits prompt
  next : c = 9 → prompt.lastC = 9 → 0 < prompt.prefixListSize →
    ((prompt.prefixList ((prompt.prefixListIdx + 1).tmod prompt.prefixListSize)).length : Int) <
      bufLen

theorem Safe.handleKey {allowed : Access → Prop} {prompt : Prompt} {c : Int}
    (all : ∀ access, inRange access → allowed access) (safe : Safe allowed prompt)
    (behind : prompt.i ≤ prompt.lastIndex) (fits : Fits prompt c)
    (compared : Enters c → allowed (.commandHistory prompt.lastCommandIdx)) :
    Safe allowed (prompt.handleKey c) := by
  have cursor := safe.cursor
  unfold Prompt.handleKey
  apply Safe.ite
  · exact fun _ => { safe with }
  intro _
  apply Safe.ite
  · exact fun _ => { safe.upArrow all with }
  intro _
  apply Safe.ite
  · exact fun key => { safe.downArrow all (fits.down key) with }
  intro _
  apply Safe.ite
  · intro key
    apply Safe.ite
    · exact fun first => safe.firstTab all (fits.complete key first)
    · exact fun again => safe.nextTab all (fits.next key (not_not.mp again))
  intro _
  apply Safe.ite
  · exact fun _ => { safe.leftArrow with }
  intro _
  apply Safe.ite
  · exact fun _ => { safe.rightArrow with }
  intro _
  apply Safe.ite
  · intro key
    have room := fits.delete key.1 key.2
    exact { safe.deleteKey all behind (by omega) with }
  intro _
  apply Safe.ite
  · exact fun key => { safe.printable all key.2.1 c with }
  intro _
  apply Safe.ite
  · exact fun key => { safe.backspace all key.2 (fits.backspace key.1) with }
  intro _
  apply Safe.ite
  · intro key
    have room := fits.enter key
    exact safe.enter all (by omega) (by omega) (compared key)
  · exact fun _ => { safe with }

/-- Only the end of the line counts that a key finds. -/
theorem Fits.extended {prompt : Prompt} {c lastIndex : Int} (fits : Fits prompt c)
    (same : max prompt.i lastIndex = max prompt.i prompt.lastIndex) :
    Fits { prompt with accesses := [], lastIndex := lastIndex } c where
  enter := fun key => same ▸ fits.enter key
  delete := fun key positive => same ▸ fits.delete key positive
  backspace := fits.backspace
  down := fits.down
  complete := fun key first other argument completing =>
    fits.complete key first other argument { completing with }
  next := fits.next

theorem Editing.pressKey {allowed : Access → Prop} {prompt : Prompt} {c : Int}
    (all : ∀ access, inRange access → allowed access) (editing : Editing prompt)
    (fits : Fits prompt c) (compared : Enters c → allowed (.commandHistory prompt.lastCommandIdx)) :
    Safe allowed (prompt.pressKey c) := by
  have quiet : ∀ access ∈ ([] : List Access), allowed access := by simp
  unfold Prompt.pressKey Prompt.extendLine
  split
  · rename_i behind
    change prompt.lastIndex < prompt.i at behind
    have extended : Safe allowed { prompt with accesses := [], lastIndex := prompt.i } :=
      { editing with confined := quiet }
    have same : max prompt.i prompt.i = max prompt.i prompt.lastIndex := by omega
    exact extended.handleKey all (Int.le_refl _) (fits.extended same) compared
  · rename_i ahead
    change ¬prompt.lastIndex < prompt.i at ahead
    have quieted : Safe allowed { prompt with accesses := [] } := { editing with confined := quiet }
    exact quieted.handleKey all (Int.not_lt.mp ahead) (fits.extended rfl) compared

/-! ## Runs -/

/-- A call of `command_prompt_readline`, with what it finds on the stack, or a key. -/
inductive Event
  | call (lastC prefixListSize : Int)
  | key (c : Int)

structure Step where
  before : Prompt
  event : Event
  after : Prompt

/-- A call follows the end of the line before. Keys are typed while a line is read. -/
inductive Run : Prompt → List Step → Prop
  | nil (prompt) : Run prompt []
  | call {prompt lastC prefixListSize steps} :
      prompt.reading = false → Run (prompt.readline lastC prefixListSize) steps →
      Run prompt
        (⟨prompt, .call lastC prefixListSize, prompt.readline lastC prefixListSize⟩ :: steps)
  | key {prompt c steps} :
      prompt.reading = true → Run (prompt.pressKey c) steps →
      Run prompt (⟨prompt, .key c, prompt.pressKey c⟩ :: steps)

def Step.Fits (step : Step) : Prop :=
  ∀ c, step.event = .key c → CommandLine.Fits step.before c

/-- The line is not the first one since the start of the kernel, or the key does not end it. -/
def Step.Compares (step : Step) : Prop :=
  ∀ c, step.event = .key c → Enters c → 0 ≤ step.before.lastCommandIdx

theorem History.readline {prompt : Prompt} (history : History prompt)
    (lastC prefixListSize : Int) :
    Safe inRange (prompt.readline lastC prefixListSize) where
  ended := history.ended
  lower := history.lower
  upper := history.upper
  bufEnded := by simp [Prompt.readline, Prompt.emptyBuf, bufLen]
  row := by
    have := history.lower
    change 0 ≤ prompt.lastCommandIdx + 1
    omega
  rowUpper := Int.le_refl _
  cursor := Int.le_refl 0
  confined := by simp [Prompt.readline]

theorem Editing.run {prompt : Prompt} {steps : List Step} (editing : Editing prompt)
    (run : Run prompt steps) (fits : ∀ step ∈ steps, step.Fits) :
    ∀ step ∈ steps, step.Compares → ∀ access ∈ step.after.accesses, inRange access := by
  induction run with
  | nil => simp
  | @call prompt lastC prefixListSize steps idle run induction =>
      have begun := editing.toHistory.readline lastC prefixListSize
      have rest : ∀ step ∈ steps, step.Fits := fun other inRest =>
        fits other (List.mem_cons_of_mem _ inRest)
      intro step member compares
      rcases List.mem_cons.mp member with rfl | later
      · exact begun.confined
      · exact induction begun.toEditing rest step later compares
  | @key prompt c steps reading run induction =>
      have fitting := fits _ List.mem_cons_self c rfl
      have rest : ∀ step ∈ steps, step.Fits := fun other inRest =>
        fits other (List.mem_cons_of_mem _ inRest)
      intro step member compares
      rcases List.mem_cons.mp member with rfl | later
      · have pressed : Safe inRange (prompt.pressKey c) :=
          editing.pressKey (fun _ within => within) fitting fun enters =>
            ⟨compares c rfl enters, editing.upper⟩
        exact pressed.confined
      · have pressed : Safe (fun _ => True) (prompt.pressKey c) :=
          editing.pressKey (fun _ _ => trivial) fitting fun _ => trivial
        exact induction pressed.toEditing rest step later compares

/-- Before the first command line. -/
structure Booted (prompt : Prompt) : Prop where
  last : prompt.lastCommandIdx = -1
  empty : ∀ row, 0 ≤ row → row ≤ historyMax → ∀ index, 0 ≤ index → index < bufLen →
    prompt.command row index = 0
  idle : prompt.reading = false

theorem Booted.history {prompt : Prompt} (booted : Booted prompt) : History prompt where
  ended := fun row lower upper => booted.empty row lower upper _ (by decide) (by decide)
  lower := Int.le_of_eq booted.last.symm
  upper := by rw [booted.last]; decide

/-- However many lines and keys follow each other: as long as no key leads out of the line or
past the newest command, every index is in range but the row before the first one, with which
the first line of all is compared. -/
theorem readline_in_range {prompt : Prompt} {steps : List Step} (history : History prompt)
    (idle : prompt.reading = false) (run : Run prompt steps)
    (fits : ∀ step ∈ steps, step.Fits) :
    ∀ step ∈ steps, step.Compares → ∀ access ∈ step.after.accesses, inRange access := by
  cases run with
  | nil => simp
  | @call prompt lastC prefixListSize steps _ run =>
      have begun := history.readline lastC prefixListSize
      have rest : ∀ step ∈ steps, step.Fits := fun other inRest =>
        fits other (List.mem_cons_of_mem _ inRest)
      intro step member compares
      rcases List.mem_cons.mp member with rfl | later
      · exact begun.confined
      · exact begun.toEditing.run run rest step later compares
  | key reading => exact absurd reading (by simp [idle])

/-- A kernel whose memory is zero. -/
def zeroPrompt : Prompt where
  lastCommandIdx := -1
  commandHistory := fun _ => 0
  prefixList := fun _ => []
  buf := fun _ => 0
  i := 0
  lastIndex := 0
  commandidx := 0
  prefixListIdx := 0
  prefixListSize := 0
  lastC := 0
  reading := false
  accesses := []

theorem zeroPrompt_booted : Booted zeroPrompt := ⟨rfl, fun _ _ _ _ _ _ => rfl, rfl⟩

/-- A letter, the end of the line, and the line again from the history. -/
theorem readline_in_range_two_lines :
    let lineRead := (zeroPrompt.readline 0 0).pressKey 104
    let nextLine := (lineRead.pressKey 10).readline 9 0
    ∀ access ∈ (nextLine.pressKey 226).accesses, inRange access := by
  intro lineRead nextLine
  have run : Run zeroPrompt [⟨zeroPrompt, .call 0 0, zeroPrompt.readline 0 0⟩,
      ⟨zeroPrompt.readline 0 0, .key 104, lineRead⟩, ⟨lineRead, .key 10, lineRead.pressKey 10⟩,
      ⟨lineRead.pressKey 10, .call 9 0, nextLine⟩, ⟨nextLine, .key 226, nextLine.pressKey 226⟩] :=
    .call rfl <| .key rfl <| .key rfl <| .call rfl <| .key rfl <| .nil _
  have letter : Fits (zeroPrompt.readline 0 0) 104 := by
    constructor <;> exact fun key => absurd key (by decide)
  have end_of_line : Fits lineRead 10 := by
    constructor
    case enter => exact fun _ => by decide
    all_goals exact fun key => absurd key (by decide)
  have up : Fits nextLine 226 := by
    constructor <;> exact fun key => absurd key (by decide)
  refine readline_in_range zeroPrompt_booted.history rfl run ?_ _
    (List.mem_of_getElem? (i := 4) rfl) ?_
  · intro step member c event
    simp only [List.mem_cons, List.not_mem_nil, or_false] at member
    rcases member with rfl | rfl | rfl | rfl | rfl <;> cases event
    · exact letter
    · exact end_of_line
    · exact up
  · intro c event enters
    cases event
    exact absurd enters (by decide)

/-- The first line of all is compared with the row before the first one. -/
theorem first_line_outside : ¬∀ (prompt : Prompt) (steps : List Step), Booted prompt →
    Run prompt steps → ∀ step ∈ steps, ∀ access ∈ step.after.accesses, inRange access := by
  intro always
  have run : Run zeroPrompt [⟨zeroPrompt, .call 0 0, zeroPrompt.readline 0 0⟩,
      ⟨zeroPrompt.readline 0 0, .key 10, (zeroPrompt.readline 0 0).pressKey 10⟩] :=
    .call rfl <| .key rfl <| .nil _
  have within := always zeroPrompt _ zeroPrompt_booted run _
    (List.mem_cons_of_mem _ List.mem_cons_self) (.commandHistory (-1)) (by decide)
  exact absurd within.1 (by decide)

end FosKernel.CommandLine
