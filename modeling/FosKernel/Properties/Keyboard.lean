import FosKernel.Properties.Display

/-! # What keys do

The state of the modifier keys after any sequence of scan codes, and the part of the memory of
the display that the console changes.
-/

namespace FosKernel.Console

/-! ## The memory of the display -/

/-- The end of what the console writes: five cells behind the display, since `deleteCell` starts
its count behind the prompt and the row of text is as long as the display is wide. -/
abbrev crtReach : Nat := crtSize + 5

namespace Display

/-- What every operation keeps, also where the position is behind the last cell. -/
structure Bounded (before : Nat → Cell) (display : Display) : Prop where
  nonneg : 0 ≤ display.textLength
  bounded : display.textLength ≤ crtCols
  beyond : ∀ index, crtReach ≤ index → display.crtBuf index = before index

/-- What holds between two operations. -/
structure Contained (before : Nat → Cell) (display : Display) : Prop
    extends Bounded before display where
  position : display.crtPos.toNat < crtSize

variable {before : Nat → Cell} {display : Display}

theorem Bounded.setCell (bounded : Bounded before display) {index : Nat} (inside : index < crtReach)
    (cell : Cell) : Bounded before (display.setCell index cell) where
  nonneg := bounded.nonneg
  bounded := bounded.bounded
  beyond other outside := by
    refine Eq.trans ?_ (bounded.beyond other outside)
    exact Function.update_of_ne (by omega) _ _

theorem Bounded.backspace (bounded : Bounded before display)
    (position : display.crtPos.toNat < crtSize) (c : BitVec 32) :
    Bounded before (display.backspace c) := by
  unfold Display.backspace
  split
  · next behind =>
      have back : (display.crtPos - 1).toNat = display.crtPos.toNat - 1 := by bv_omega
      have moved : Bounded before { display with crtPos := display.crtPos - 1 } :=
        ⟨bounded.nonneg, bounded.bounded, bounded.beyond⟩
      refine moved.setCell ?_ _
      rw [back]
      simp only [crtReach, crtSize, crtRows, crtCols] at *
      omega
  · exact bounded

theorem Bounded.lineFeed (bounded : Bounded before display) :
    Bounded before display.lineFeed.carriageReturn :=
  ⟨le_refl _, Int.natCast_nonneg _, bounded.beyond⟩

theorem Bounded.moveLeft (bounded : Bounded before display) : Bounded before display.moveLeft := by
  unfold Display.moveLeft
  split
  · exact ⟨bounded.nonneg, bounded.bounded, bounded.beyond⟩
  · exact bounded

theorem Bounded.moveRight (bounded : Bounded before display) :
    Bounded before display.moveRight := by
  unfold Display.moveRight
  split
  · exact ⟨bounded.nonneg, bounded.bounded, bounded.beyond⟩
  · exact bounded

/-- The text grows only up to the end of the last row. -/
theorem Bounded.writeCharacter (bounded : Bounded before display)
    (position : display.crtPos.toNat < crtSize) (c : BitVec 32) :
    Bounded before (display.writeCharacter c) := by
  have inside : display.crtPos.toNat < crtReach := position.trans (by decide)
  have right : (display.crtPos + 1).toNat = display.crtPos.toNat + 1 := by
    simp only [crtSize, crtRows, crtCols] at position
    bv_omega
  have written := bounded.setCell inside (c.setWidth 16)
  unfold Display.writeCharacter
  split
  · dsimp only
    split
    · next grows =>
        refine ⟨Int.le_trans written.nonneg (by simp), ?_, written.beyond⟩
        change display.textLength + 1 ≤ _
        change (1920 : Int) + display.textLength < (display.crtPos + 1).toNat at grows
        simp only [crtSize, crtRows, crtCols] at position ⊢
        omega
    · exact ⟨written.nonneg, written.bounded, written.beyond⟩
  · exact bounded

theorem Bounded.scroll (bounded : Bounded before display) : Bounded before display.scroll := by
  unfold Display.scroll
  split
  · refine ⟨bounded.nonneg, bounded.bounded, fun index outside => ?_⟩
    refine Eq.trans ?_ (bounded.beyond index outside)
    simp only [crtReach, crtSize, crtRows, crtCols] at *
    rw [blankRow_apply, if_neg (by omega), Text.Pointers.memcpy,
      copyUp_eq_moved (.inl (by decide)), moved_outside (.inr (by omega))]
  · exact bounded

theorem Bounded.moveCursor (bounded : Bounded before display) :
    Bounded before display.moveCursor := ⟨bounded.nonneg, bounded.bounded, bounded.beyond⟩

theorem Contained.lptPutc (contained : Contained before display) (c : BitVec 32) :
    Contained before (display.lptPutc c) :=
  ⟨⟨contained.nonneg, contained.bounded, contained.beyond⟩, contained.position⟩

theorem Contained.cgaPutcWith {tab : Display → Display} (contained : Contained before display)
    (c : BitVec 32) (tabs : Contained before (tab display)) :
    Bounded before (display.cgaPutcWith tab c) := by
  have bounded := contained.toBounded
  unfold Display.cgaPutcWith
  refine Bounded.moveCursor (Bounded.scroll ?_)
  split_ifs
  · exact bounded.backspace contained.position _
  · exact bounded.lineFeed
  · exact ⟨bounded.nonneg, bounded.bounded, bounded.beyond⟩
  · exact tabs.toBounded
  · exact bounded.moveLeft
  · exact bounded.moveRight
  · exact bounded.writeCharacter contained.position _

theorem Contained.putSpace (contained : Contained before display) :
    Contained before display.putSpace where
  toBounded := (contained.lptPutc 0x20).cgaPutcWith 0x20 (contained.lptPutc 0x20)
  position := (shows_paper contained.position).putSpace.crtPos_lt

theorem Contained.consPutc (contained : Contained before display) (c : BitVec 32) :
    Contained before (display.consPutc c) where
  toBounded := by
    have printed := contained.lptPutc c
    unfold Display.consPutc cgaPutc
    exact printed.cgaPutcWith c printed.putSpace.putSpace.putSpace.putSpace.putSpace
  position := ((shows_paper contained.position).consPutc c).crtPos_lt

theorem Contained.cputs (contained : Contained before display) (s : List Byte) :
    Contained before (display.cputs s) := by
  induction s generalizing display with
  | nil => exact contained
  | cons char s induction => exact induction (contained.consPutc _)

end Display

open Display

variable {before : Nat → Cell} {console : Console}

/-- `deleteCell` moves the cells up to the one with the number of the text behind the prompt. -/
theorem deleteCell_cells (some : 0 < console.display.textLength)
    (inside : (console.display.crtPos.toNat : Int) ≠ 1920 + console.display.textLength)
    (index : Nat) :
    console.deleteCell.2.display.crtBuf index =
      if console.display.crtPos.toNat ≤ index ∧ (index : Int) < 1925 + console.display.textLength
      then console.display.crtBuf (index + 1) else console.display.crtBuf index := by
  unfold deleteCell
  dsimp only
  rw [if_pos some, if_neg inside]
  dsimp only
  rw [copyUp_eq_moved (.inl (by omega)), moved]
  by_cases moves : console.display.crtPos.toNat ≤ index ∧
      (index : Int) < 1925 + console.display.textLength
  · rw [if_pos moves, if_pos (by omega)]
    congr 1
    omega
  · rw [if_neg moves, if_neg (by omega)]

theorem deleteCell_contained (contained : Contained before console.display) :
    Contained before console.deleteCell.2.display := by
  by_cases some : 0 < console.display.textLength
  · by_cases inside : (console.display.crtPos.toNat : Int) = 1920 + console.display.textLength
    · simpa only [deleteCell, if_pos some, if_pos inside] using contained
    · have shorter : console.deleteCell.2.display.textLength = console.display.textLength - 1 := by
        simp only [deleteCell, if_pos some, if_neg inside]
      have stays : console.deleteCell.2.display.crtPos = console.display.crtPos := by
        simp only [deleteCell, if_pos some, if_neg inside]
      have bounded := contained.bounded
      refine ⟨⟨by rw [shorter]; omega, by rw [shorter]; omega, fun index outside => ?_⟩, ?_⟩
      · refine Eq.trans ?_ (contained.beyond index outside)
        simp only [crtReach, crtSize, crtRows, crtCols] at outside bounded
        rw [deleteCell_cells some inside, if_neg (by omega)]
      · rw [stays]
        exact contained.position
  · simpa only [deleteCell, if_neg some] using contained

theorem processSpecialKeys_contained (contained : Contained before console.display)
    (c : BitVec 32) : Contained before (console.processSpecialKeys c).2.display := by
  unfold processSpecialKeys
  split_ifs
  · exact contained
  · exact contained
  · exact contained.cputs _
  · exact contained

theorem kbdProcData_contained (contained : Contained before console.display) (data : Byte) :
    Contained before (kbdProcData data console).2.display := by
  rcases kbdProcData_cases data console with ⟨shift, nothing | delete | ⟨c, -, -, other⟩⟩
  · rw [nothing]
    exact contained
  · rw [delete]
    refine deleteCell_contained ?_
    exact contained
  · rw [other]
    refine processSpecialKeys_contained ?_ c
    exact contained

theorem processSpecialKeys_rebooted {c : BitVec 32} (other : c ≠ keyDel.setWidth 32) :
    (console.processSpecialKeys c).2.rebooted = console.rebooted := by
  unfold processSpecialKeys
  split_ifs with _ _ both
  · rfl
  · rfl
  · exact absurd both.2 other
  · rfl

theorem deleteCell_rebooted : console.deleteCell.2.rebooted = console.rebooted := by
  unfold deleteCell
  dsimp only
  split_ifs <;> rfl

/-- The reset is not reached: a delete key returns before. -/
theorem kbdProcData_rebooted (data : Byte) (console : Console) :
    (kbdProcData data console).2.rebooted = console.rebooted := by
  rcases kbdProcData_cases data console with ⟨shift, nothing | delete | ⟨c, -, plain, other⟩⟩
  · rw [nothing]
  · rw [delete, deleteCell_rebooted]
  · rw [other, processSpecialKeys_rebooted plain]

/-! ## Properties of the devices that every event keeps -/

/-- A property that output and bytes from the ports keep holds after every run. -/
theorem runAll_keeps (property : Console → Prop)
    (output : ∀ console c, property console →
      property { console with display := console.display.consPutc c })
    (key : ∀ console data, property console → property (kbdProcData data console).2)
    (buffer : ∀ (console : Console) cons, property console → property { console with cons })
    (events : List Event) {console : Console} (holds : property console) :
    property (runAll events console).2 := by
  have stashed : ∀ c console, property console → property (console.stash c) := by
    intro c console holds
    unfold stash
    split_ifs
    · exact holds
    · exact buffer console _ holds
  have intr : ∀ proc : Byte → Console → BitVec 32 × Console,
      (∀ console data, property console → property (proc data console).2) →
      ∀ data console, property console → property (consIntr proc data console) := by
    intro proc each data
    induction data with
    | nil => exact fun _ holds => holds
    | cons byte data induction =>
        exact fun console holds => induction _ (stashed _ _ (each console byte holds))
  have serial : ∀ data console, property console → property (serialIntr data console) := by
    intro data console holds
    unfold serialIntr
    split_ifs
    · exact intr serialProcData (fun _ _ holds => holds) data console holds
    · exact holds
  have next : ∀ console, property console → property console.nextCharacter.2 := by
    intro console holds
    unfold nextCharacter
    cases console.cons.take with
    | none => exact holds
    | some found => exact buffer console _ holds
  induction events generalizing console with
  | nil => exact holds
  | cons event events induction =>
      refine induction ?_
      cases event with
      | putc c => exact output console c holds
      | getc serialData keyboard =>
          exact next _ (intr kbdProcData key keyboard _ (serial serialData console holds))
      | getc2 serialData keyboard =>
          have polled := serial serialData.toList console holds
          cases keyboard with
          | none => exact polled
          | some data =>
              have pressed := stashed (kbdProcData data (serialIntr serialData.toList console)).1 _
                (key _ data polled)
              simp only [consGetc2]
              split_ifs
              · exact next _ pressed
              · exact pressed

/-- Whatever is typed and printed, the position stays on the display, and no cell changes that is
five cells or more behind it. -/
theorem console_stays_contained (events : List Event) (console : Console)
    (position : console.display.crtPos.toNat < crtSize)
    (length : 0 ≤ console.display.textLength ∧ console.display.textLength ≤ crtCols) :
    Contained console.display.crtBuf (runAll events console).2.display := by
  refine runAll_keeps (fun other => Contained console.display.crtBuf other.display) ?_ ?_
    (fun _ _ contained => contained) events ⟨⟨length.1, length.2, fun _ _ => rfl⟩, position⟩
  · exact fun other c contained => contained.consPutc c
  · exact fun other data contained => kbdProcData_contained contained data

theorem console_stays_contained_sample :
    let console := initial .empty true
    let events := [Event.putc 0x48, .getc [] [0xE0, 0x53]]
    Contained console.display.crtBuf (runAll events console).2.display :=
  console_stays_contained _ _ (by decide) (by decide)

/-- No sequence of keys makes the machine reboot. -/
theorem never_reboots (events : List Event) (console : Console) :
    (runAll events console).2.rebooted = console.rebooted := by
  refine runAll_keeps (fun other => other.rebooted = console.rebooted) (fun _ _ same => same)
    ?_ (fun _ _ same => same) events rfl
  exact fun other data same => (kbdProcData_rebooted data other).trans same

/-! ## Modifier keys -/

/-- A key as the tables number it, where the ones behind an escape code have the highest bit. -/
inductive KeyEvent
  | press (code : Byte)
  | release (code : Byte)
  deriving DecidableEq

namespace KeyEvent

def code : KeyEvent → Byte
  | press code => code
  | release code => code

def isPress : KeyEvent → Bool
  | press _ => true
  | release _ => false

end KeyEvent

/-- The keys so far and whether an escape code came last, after one more scan code. -/
def scan (scanned : List KeyEvent × Bool) (data : Byte) : List KeyEvent × Bool :=
  if data = 0xE0 then (scanned.1, true)
  else if data &&& 0x80 ≠ 0 then
    (scanned.1 ++ [.release (if scanned.2 then data else data &&& 0x7F)], false)
  else (scanned.1 ++ [.press (if scanned.2 then data ||| 0x80 else data)], false)

/-- The last event of the keys with these codes is a press. -/
def held (codes : List Byte) (keys : List KeyEvent) : Bool :=
  ((keys.filter fun key => codes.contains key.code).getLast?.map KeyEvent.isPress).getD false

/-- The key was pressed an odd number of times. -/
def toggled (code : Byte) (keys : List KeyEvent) : Bool :=
  (keys.countP (· = .press code)).bodd

/-- What the variable `shift` says of the keys. -/
structure Modifiers (shift : BitVec 32) (scanned : List KeyEvent × Bool) : Prop where
  shiftKeys : shift.getLsbD 0 = held [0x2A, 0x36] scanned.1
  ctlKeys : shift.getLsbD 1 = held [0x1D, 0x9D] scanned.1
  altKeys : shift.getLsbD 2 = held [0x38, 0xB8] scanned.1
  capsLockKey : shift.getLsbD 3 = toggled 0x3A scanned.1
  numLockKey : shift.getLsbD 4 = toggled 0x45 scanned.1
  scrollLockKey : shift.getLsbD 5 = toggled 0x46 scanned.1
  escape : shift.getLsbD 6 = scanned.2
  others : ∀ index, 7 ≤ index → shift.getLsbD index = false

/-- `shift` after a scan code. -/
def shiftAfter (shift : BitVec 32) (data : Byte) : BitVec 32 :=
  if data = 0xE0 then shift ||| e0Esc
  else if data &&& 0x80 ≠ 0 then
    shift &&& ~~~(shiftcode (if shift &&& e0Esc ≠ 0 then data else data &&& 0x7F) ||| e0Esc)
  else
    let data := if shift &&& e0Esc ≠ 0 then data ||| 0x80 else data
    ((if shift &&& e0Esc ≠ 0 then shift &&& ~~~e0Esc else shift) ||| shiftcode data) ^^^
      togglecode data

theorem held_append (codes : List Byte) (keys : List KeyEvent) (key : KeyEvent) :
    held codes (keys ++ [key]) = if key.code ∈ codes then key.isPress else held codes keys := by
  unfold held
  rw [List.filter_append]
  split_ifs with member <;> simp [member]

theorem held_press (codes : List Byte) (keys : List KeyEvent) (code : Byte) :
    held codes (keys ++ [.press code]) = (held codes keys || decide (code ∈ codes)) := by
  rw [held_append]
  by_cases member : code ∈ codes <;> simp [KeyEvent.code, KeyEvent.isPress, member]

theorem held_release (codes : List Byte) (keys : List KeyEvent) (code : Byte) :
    held codes (keys ++ [.release code]) = (held codes keys && !decide (code ∈ codes)) := by
  rw [held_append]
  by_cases member : code ∈ codes <;> simp [KeyEvent.code, KeyEvent.isPress, member]

theorem toggled_press (code other : Byte) (keys : List KeyEvent) :
    toggled code (keys ++ [.press other]) = (toggled code keys ^^ decide (other = code)) := by
  unfold toggled
  rw [List.countP_append, Nat.bodd_add, List.countP_singleton]
  by_cases same : other = code <;> simp [same]

theorem toggled_release (code other : Byte) (keys : List KeyEvent) :
    toggled code (keys ++ [.release other]) = toggled code keys := by
  simp [toggled]

theorem getLsbD_of_small {word : BitVec 32} {width index : Nat} (small : word.toNat < 2 ^ width)
    (above : width ≤ index) : word.getLsbD index = false :=
  Nat.testBit_lt_two_pow (small.trans_le (Nat.pow_le_pow_right (by decide) above))

theorem escape_iff (shift : BitVec 32) : shift &&& e0Esc ≠ 0 ↔ shift.getLsbD 6 = true := by
  rw [show e0Esc = BitVec.twoPow 32 6 from rfl, BitVec.and_twoPow]
  by_cases escaped : shift.getLsbD 6 <;> simp [escaped, BitVec.twoPow]

theorem shiftcode_bits (code : Byte) :
    (shiftcode code).getLsbD 0 = decide (code ∈ [(0x2A : Byte), 0x36]) ∧
      (shiftcode code).getLsbD 1 = decide (code ∈ [(0x1D : Byte), 0x9D]) ∧
      (shiftcode code).getLsbD 2 = decide (code ∈ [(0x38 : Byte), 0xB8]) ∧
      ∀ index, 3 ≤ index → (shiftcode code).getLsbD index = false := by
  have small : (shiftcode code).toNat < 2 ^ 3 := by
    unfold shiftcode
    split_ifs <;> decide
  refine ⟨?_, ?_, ?_, fun index above => getLsbD_of_small small above⟩
  all_goals
    revert code
    decide

theorem togglecode_bits (code : Byte) :
    (togglecode code).getLsbD 3 = decide (code = 0x3A) ∧
      (togglecode code).getLsbD 4 = decide (code = 0x45) ∧
      (togglecode code).getLsbD 5 = decide (code = 0x46) ∧
      (∀ index < 3, (togglecode code).getLsbD index = false) ∧
      ∀ index, 6 ≤ index → (togglecode code).getLsbD index = false := by
  have small : (togglecode code).toNat < 2 ^ 6 := by
    unfold togglecode
    split_ifs <;> decide
  refine ⟨?_, ?_, ?_, ?_, fun index above => getLsbD_of_small small above⟩
  all_goals
    clear small
    revert code
    decide

theorem e0Esc_bit (index : Nat) : e0Esc.getLsbD index = decide (index = 6) := by
  rw [show e0Esc = BitVec.twoPow 32 6 from rfl, BitVec.getLsbD_twoPow]
  by_cases six : index = 6 <;> simp [six, eq_comm]

theorem clear_bit (shift mask : BitVec 32) (index : Nat) :
    (shift &&& ~~~mask).getLsbD index = (shift.getLsbD index && !mask.getLsbD index) := by
  rw [BitVec.getLsbD_and, BitVec.getLsbD_not]
  by_cases inside : index < 32
  · simp [inside]
  · simp [BitVec.getLsbD_of_ge shift index (by omega)]

section Step

variable {shift : BitVec 32} {scanned : List KeyEvent × Bool}

/-- An escape code is forgotten. -/
theorem Modifiers.clearEscape (modifiers : Modifiers shift scanned) :
    Modifiers (shift &&& ~~~e0Esc) (scanned.1, false) := by
  have kept : ∀ index, index ≠ 6 → (shift &&& ~~~e0Esc).getLsbD index = shift.getLsbD index := by
    intro index other
    rw [clear_bit, e0Esc_bit, decide_eq_false other, Bool.not_false, Bool.and_true]
  refine ⟨?_, ?_, ?_, ?_, ?_, ?_, ?_, fun index other => ?_⟩
  · exact (kept 0 (by decide)).trans modifiers.shiftKeys
  · exact (kept 1 (by decide)).trans modifiers.ctlKeys
  · exact (kept 2 (by decide)).trans modifiers.altKeys
  · exact (kept 3 (by decide)).trans modifiers.capsLockKey
  · exact (kept 4 (by decide)).trans modifiers.numLockKey
  · exact (kept 5 (by decide)).trans modifiers.scrollLockKey
  · rw [clear_bit, e0Esc_bit, decide_eq_true rfl, Bool.not_true, Bool.and_false]
  · exact (kept index (by omega)).trans (modifiers.others index other)

/-- A released key is not held any more. -/
theorem Modifiers.release (modifiers : Modifiers shift scanned) (code : Byte) :
    Modifiers (shift &&& ~~~(shiftcode code ||| e0Esc))
      (scanned.1 ++ [.release code], false) := by
  rcases shiftcode_bits code with ⟨shiftBits, ctlBits, altBits, above⟩
  have split : shift &&& ~~~(shiftcode code ||| e0Esc) =
      (shift &&& ~~~e0Esc) &&& ~~~shiftcode code := by
    rw [BitVec.not_or, BitVec.and_assoc, BitVec.and_comm (~~~shiftcode code)]
  have cleared := modifiers.clearEscape
  have kept : ∀ index, 3 ≤ index → ((shift &&& ~~~e0Esc) &&& ~~~shiftcode code).getLsbD index =
      (shift &&& ~~~e0Esc).getLsbD index := by
    intro index other
    rw [clear_bit, above index other, Bool.not_false, Bool.and_true]
  rw [split]
  refine ⟨?_, ?_, ?_, ?_, ?_, ?_, ?_, fun index other => ?_⟩
  · rw [clear_bit, shiftBits, cleared.shiftKeys, held_release]
  · rw [clear_bit, ctlBits, cleared.ctlKeys, held_release]
  · rw [clear_bit, altBits, cleared.altKeys, held_release]
  · rw [kept 3 (by decide), cleared.capsLockKey, toggled_release]
  · rw [kept 4 (by decide), cleared.numLockKey, toggled_release]
  · rw [kept 5 (by decide), cleared.scrollLockKey, toggled_release]
  · rw [kept 6 (by decide), cleared.escape]
  · rw [kept index (by omega), cleared.others index other]

/-- A pressed key is held, and a lock key changes its state. -/
theorem Modifiers.press (modifiers : Modifiers shift scanned) (plain : scanned.2 = false)
    (code : Byte) :
    Modifiers ((shift ||| shiftcode code) ^^^ togglecode code)
      (scanned.1 ++ [.press code], false) := by
  rcases shiftcode_bits code with ⟨shiftBits, ctlBits, altBits, shiftAbove⟩
  rcases togglecode_bits code with ⟨capsBits, numBits, scrollBits, below, toggleAbove⟩
  refine ⟨?_, ?_, ?_, ?_, ?_, ?_, ?_, fun index other => ?_⟩
  · rw [BitVec.getLsbD_xor, BitVec.getLsbD_or, shiftBits, below 0 (by decide), Bool.xor_false,
      modifiers.shiftKeys, held_press]
  · rw [BitVec.getLsbD_xor, BitVec.getLsbD_or, ctlBits, below 1 (by decide), Bool.xor_false,
      modifiers.ctlKeys, held_press]
  · rw [BitVec.getLsbD_xor, BitVec.getLsbD_or, altBits, below 2 (by decide), Bool.xor_false,
      modifiers.altKeys, held_press]
  · rw [BitVec.getLsbD_xor, BitVec.getLsbD_or, shiftAbove 3 (by decide), Bool.or_false, capsBits,
      modifiers.capsLockKey, toggled_press]
  · rw [BitVec.getLsbD_xor, BitVec.getLsbD_or, shiftAbove 4 (by decide), Bool.or_false, numBits,
      modifiers.numLockKey, toggled_press]
  · rw [BitVec.getLsbD_xor, BitVec.getLsbD_or, shiftAbove 5 (by decide), Bool.or_false, scrollBits,
      modifiers.scrollLockKey, toggled_press]
  · rw [BitVec.getLsbD_xor, BitVec.getLsbD_or, shiftAbove 6 (by decide), Bool.or_false,
      toggleAbove 6 (by decide), Bool.xor_false, modifiers.escape, plain]
  · rw [BitVec.getLsbD_xor, BitVec.getLsbD_or, shiftAbove index (by omega), Bool.or_false,
      toggleAbove index (by omega), Bool.xor_false, modifiers.others index other]

/-- One scan code keeps the account of the keys. -/
theorem Modifiers.scan (modifiers : Modifiers shift scanned) (data : Byte) :
    Modifiers (shiftAfter shift data) (scan scanned data) := by
  have escaped : (shift &&& e0Esc ≠ 0) ↔ scanned.2 = true := by
    rw [escape_iff, modifiers.escape]
  unfold shiftAfter Console.scan
  by_cases extended : data = 0xE0
  · rw [if_pos extended, if_pos extended]
    refine ⟨?_, ?_, ?_, ?_, ?_, ?_, ?_, fun index other => ?_⟩
    · rw [BitVec.getLsbD_or, modifiers.shiftKeys]
      exact Bool.or_false _
    · rw [BitVec.getLsbD_or, modifiers.ctlKeys]
      exact Bool.or_false _
    · rw [BitVec.getLsbD_or, modifiers.altKeys]
      exact Bool.or_false _
    · rw [BitVec.getLsbD_or, modifiers.capsLockKey]
      exact Bool.or_false _
    · rw [BitVec.getLsbD_or, modifiers.numLockKey]
      exact Bool.or_false _
    · rw [BitVec.getLsbD_or, modifiers.scrollLockKey]
      exact Bool.or_false _
    · rw [BitVec.getLsbD_or, e0Esc_bit]
      exact Bool.or_true _
    · rw [BitVec.getLsbD_or, modifiers.others index other, e0Esc_bit,
        decide_eq_false (by omega), Bool.or_false]
  by_cases released : data &&& 0x80 ≠ 0
  · rw [if_neg extended, if_neg extended, if_pos released, if_pos released]
    by_cases last : scanned.2 = true
    · rw [if_pos (escaped.mpr last), if_pos last]
      exact modifiers.release _
    · rw [if_neg (mt escaped.mp last), if_neg last]
      exact modifiers.release _
  · rw [if_neg extended, if_neg extended, if_neg released, if_neg released]
    by_cases last : scanned.2 = true
    · simp only [if_pos (escaped.mpr last), if_pos last]
      exact modifiers.clearEscape.press rfl _
    · simp only [if_neg (mt escaped.mp last), if_neg last]
      exact modifiers.press (by simpa using last) _

end Step

theorem processSpecialKeys_shift (c : BitVec 32) :
    (console.processSpecialKeys c).2.shift = console.shift := by
  unfold processSpecialKeys
  split_ifs <;> rfl

theorem deleteCell_shift : console.deleteCell.2.shift = console.shift := by
  unfold deleteCell
  dsimp only
  split_ifs <;> rfl

theorem kbdProcData_shift (data : Byte) (console : Console) :
    (kbdProcData data console).2.shift = shiftAfter console.shift data := by
  unfold kbdProcData shiftAfter
  dsimp only
  split_ifs <;> first | rfl | rw [deleteCell_shift] | rw [processSpecialKeys_shift]

/-- The scan codes that arrive in an event. -/
def Event.scanCodes : Event → List Byte
  | .getc _ keyboard => keyboard
  | .getc2 _ keyboard => keyboard.toList
  | .putc _ => []

theorem stash_shift (c : BitVec 32) : (console.stash c).shift = console.shift := by
  unfold stash
  split_ifs <;> rfl

theorem nextCharacter_shift : console.nextCharacter.2.shift = console.shift := by
  unfold nextCharacter
  cases console.cons.take <;> rfl

theorem kbdIntr_shift (data : List Byte) (console : Console) :
    (kbdIntr data console).shift = data.foldl shiftAfter console.shift := by
  unfold kbdIntr
  induction data generalizing console with
  | nil => rfl
  | cons byte data induction =>
      rw [consIntr, induction, stash_shift, kbdProcData_shift, List.foldl_cons]

theorem serialIntr_shift (data : List Byte) (console : Console) :
    (serialIntr data console).shift = console.shift := by
  unfold serialIntr
  split_ifs
  · induction data generalizing console with
    | nil => rfl
    | cons byte data induction =>
        rw [consIntr, induction]
        · exact stash_shift _
        · unfold stash
          split_ifs <;> assumption
  · rfl

theorem Event.run_shift (event : Event) (console : Console) :
    (event.run console).2.shift = event.scanCodes.foldl shiftAfter console.shift := by
  cases event with
  | putc c => rfl
  | getc serial keyboard =>
      exact nextCharacter_shift.trans
        ((kbdIntr_shift keyboard _).trans (by rw [serialIntr_shift]; rfl))
  | getc2 serial keyboard =>
      cases keyboard with
      | none => exact serialIntr_shift _ _
      | some data =>
          simp only [Event.run, consGetc2, Event.scanCodes, Option.toList_some, List.foldl_cons,
            List.foldl_nil]
          split_ifs
          · rw [nextCharacter_shift, stash_shift, kbdProcData_shift, serialIntr_shift]
          · rw [stash_shift, kbdProcData_shift, serialIntr_shift]

/-- After any run a modifier counts as held exactly when the last event of its keys is a press,
and a lock is on exactly when its key was pressed an odd number of times. -/
theorem modifiers_follow_keys (events : List Event) (console : Console)
    (released : console.shift = 0) :
    Modifiers (runAll events console).2.shift
      ((events.flatMap Event.scanCodes).foldl scan ([], false)) := by
  suffices general : ∀ (console : Console) scanned, Modifiers console.shift scanned →
      Modifiers (runAll events console).2.shift
        ((events.flatMap Event.scanCodes).foldl scan scanned) by
    refine general console ([], false) ?_
    rw [released]
    exact ⟨rfl, rfl, rfl, rfl, rfl, rfl, rfl, fun _ _ => BitVec.getLsbD_zero⟩
  clear released
  induction events with
  | nil => exact fun _ _ modifiers => modifiers
  | cons event events induction =>
      intro console scanned modifiers
      have scans : ∀ (data : List Byte) shift scanned, Modifiers shift scanned →
          Modifiers (data.foldl shiftAfter shift) (data.foldl scan scanned) := by
        intro data
        induction data with
        | nil => exact fun _ _ modifiers => modifiers
        | cons byte data later => exact fun _ _ modifiers => later _ _ (modifiers.scan byte)
      have first := scans event.scanCodes console.shift scanned modifiers
      rw [← event.run_shift] at first
      rw [List.flatMap_cons, List.foldl_append]
      exact induction _ _ first

theorem modifiers_follow_keys_sample :
    let events := [Event.getc [] [0x2A, 0x3A], .putc 0x61, .getc2 none (some 0xE0)]
    Modifiers (runAll events (initial .empty true)).2.shift
      ((events.flatMap Event.scanCodes).foldl scan ([], false)) :=
  modifiers_follow_keys _ _ rfl

end FosKernel.Console
