import FosKernel.Abstract.Teletype
import FosKernel.Properties.ConsoleInput

/-! # What the display shows

`cga_putc` makes the display a window on a teletype of 80 columns. Nothing that the console does
moves the position off the display or reaches further than five cells behind it.
-/

namespace FosKernel.Console

namespace Display

/-! ## The teletype -/

abbrev Paper := Teletype Cell

/-- What `cons_putc` does on the paper. -/
def putOn (paper : Paper) (c : BitVec 32) : Paper :=
  let c := withAttribute c
  let key := c &&& 0xFF
  let write := Teletype.write crtRows crtCols (0x0720 : Cell)
  if key = 0x08 then paper.erase crtCols (((c &&& ~~~0xFF) ||| 0x20).setWidth 16)
  else if key = 0x0A then paper.newLine crtRows crtCols 0x0720
  else if key = 0x0D then paper.startOfLine crtCols
  else if key = 0x09 then
    write 0x0720 (write 0x0720 (write 0x0720 (write 0x0720 (write 0x0720 paper))))
  else if key = 228 then paper.back crtCols
  else if key = 229 then paper.forward crtRows crtCols 0x0720
  else write (c.setWidth 16) paper

/-- The display is the window of the paper, with the cursor at its position. -/
structure Shows (display : Display) (paper : Paper) : Prop where
  inView : paper.InView crtRows crtCols
  position : paper.position = crtCols * paper.top + display.crtPos.toNat
  cells : ∀ index < crtSize, display.crtBuf index = paper.shown crtCols index

theorem Shows.crtPos_lt {display : Display} {paper : Paper} (shows : Shows display paper) :
    display.crtPos.toNat < crtSize := by
  have := shows.inView.below
  have := shows.position
  simp only [crtCols, crtRows, crtSize] at *
  omega

theorem blankRow_apply (crtBuf : Nat → Cell) (start count index : Nat) :
    blankRow crtBuf start count index =
      if start ≤ index ∧ index < start + count then 0x0720 else crtBuf index := by
  induction count generalizing crtBuf start with
  | zero => rw [blankRow, if_neg (by omega)]
  | succ count induction =>
      rw [blankRow, induction]
      by_cases first : index = start
      · subst first
        rw [if_neg (by omega), if_pos (by omega), Function.update_self]
      · rw [Function.update_of_ne first]
        congr 1
        exact propext (by omega)

/-- The rows move up as the paper does. -/
theorem shows_scroll {display : Display} {paper : Paper}
    (position : paper.position = crtCols * paper.top + display.crtPos.toNat)
    (below : display.crtPos.toNat < crtSize + crtCols)
    (cells : ∀ index < crtSize, display.crtBuf index = paper.shown crtCols index) :
    Shows display.scroll (paper.feed crtRows crtCols 0x0720) := by
  have inView : (paper.feed crtRows crtCols (0x0720 : Cell)).InView crtRows crtCols := by
    refine Teletype.feed_inView (by decide) (by omega) ?_
    simp only [crtCols, crtRows, crtSize] at *
    omega
  by_cases full : crtSize ≤ display.crtPos.toNat
  · have out : crtCols * (paper.top + crtRows) ≤ paper.position := by
      simp only [crtCols, crtRows, crtSize] at *
      omega
    have scrolled : display.scroll.crtPos.toNat = display.crtPos.toNat - crtCols := by
      rw [scroll, if_pos full]
      exact BitVec.toNat_sub_of_le (show (80 : BitVec 16).toNat ≤ _ by
        simp only [crtCols, crtRows, crtSize] at full
        exact Nat.le_trans (by decide) full)
    refine ⟨inView, ?_, ?_⟩
    · rw [Teletype.feed_position, scrolled, position, Teletype.feed, if_pos out]
      simp only [crtCols, crtRows, crtSize] at *
      omega
    · intro index inside
      rw [scroll, if_pos full, Teletype.feed, if_pos out]
      dsimp only [Teletype.shown]
      rw [blankRow_apply, Text.Pointers.memcpy, copyUp_eq_moved (.inl (by decide)), moved]
      by_cases last : crtSize - crtCols ≤ index
      · rw [if_pos, if_pos] <;> simp only [crtCols, crtRows, crtSize] at * <;> omega
      · rw [if_neg (by omega), if_pos (by omega), if_neg, cells _ (by omega), Teletype.shown]
        · congr 1
          simp only [crtCols, crtRows, crtSize] at *
          omega
        · simp only [crtCols, crtRows, crtSize] at *
          omega
  · have inside : ¬crtCols * (paper.top + crtRows) ≤ paper.position := by
      simp only [crtCols, crtRows, crtSize] at *
      omega
    rw [Teletype.feed, if_neg inside] at inView ⊢
    rw [scroll, if_neg full]
    exact ⟨inView, position, cells⟩

theorem Shows.moveCursor {display : Display} {paper : Paper} (shows : Shows display paper) :
    Shows display.moveCursor paper := ⟨shows.inView, shows.position, shows.cells⟩

theorem Shows.scroll {display : Display} {paper : Paper} (shows : Shows display paper) :
    Shows display.scroll paper := by
  have := shows.crtPos_lt
  rw [Display.scroll, if_neg (by omega)]
  exact shows

theorem Shows.lptPutc {display : Display} {paper : Paper} (shows : Shows display paper)
    (c : BitVec 32) : Shows (display.lptPutc c) paper :=
  ⟨shows.inView, shows.position, shows.cells⟩

section Characters

variable {display : Display} {paper : Paper} (shows : Shows display paper)

include shows

theorem Shows.startsWindow : display.crtPos = 0 ↔ ¬crtCols * paper.top < paper.position := by
  have position := shows.position
  constructor
  · intro zero
    rw [zero] at position
    simp at position
    omega
  · intro first
    refine BitVec.eq_of_toNat_eq ?_
    simp
    omega

theorem Shows.backspace (c : BitVec 32) :
    Shows (display.backspace c) (paper.erase crtCols (((c &&& ~~~0xFF) ||| 0x20).setWidth 16)) := by
  have position := shows.position
  have := shows.crtPos_lt
  unfold Display.backspace Teletype.erase
  by_cases first : display.crtPos = 0
  · rw [if_neg (by simp [first]), if_neg (shows.startsWindow.mp first)]
    exact shows
  · have inside : crtCols * paper.top < paper.position := by
      by_contra out
      exact first (shows.startsWindow.mpr out)
    have back : (display.crtPos - 1).toNat = display.crtPos.toNat - 1 := by bv_omega
    rw [if_pos (by bv_omega), if_pos inside]
    refine ⟨⟨by dsimp only; omega, ?_⟩, ?_, ?_⟩
    · have := shows.inView.below
      dsimp only
      omega
    · dsimp only [setCell]
      rw [back]
      omega
    · intro index below
      dsimp only [setCell, Teletype.shown]
      rw [back]
      by_cases same : index = display.crtPos.toNat - 1
      · rw [same, Function.update_self, show crtCols * paper.top + (display.crtPos.toNat - 1) =
          paper.position - 1 by omega, Function.update_self]
      · rw [Function.update_of_ne same, Function.update_of_ne (by omega)]
        exact shows.cells index below

theorem Shows.moveLeft : Shows display.moveLeft (paper.back crtCols) := by
  have position := shows.position
  unfold Display.moveLeft Teletype.back
  by_cases first : display.crtPos = 0
  · rw [if_neg (by simp [first]), if_neg (shows.startsWindow.mp first)]
    exact shows
  · have inside : crtCols * paper.top < paper.position := by
      by_contra out
      exact first (shows.startsWindow.mpr out)
    have back : (display.crtPos - 1).toNat = display.crtPos.toNat - 1 := by bv_omega
    rw [if_pos (by bv_omega), if_pos inside]
    refine ⟨⟨by dsimp only; omega, ?_⟩, ?_, shows.cells⟩
    · have := shows.inView.below
      dsimp only
      omega
    · dsimp only
      rw [back]
      omega

theorem Shows.carriageReturn : Shows display.carriageReturn (paper.startOfLine crtCols) := by
  have position : paper.position = 80 * paper.top + display.crtPos.toNat := shows.position
  have bound : display.crtPos.toNat < 2000 := shows.crtPos_lt
  have below : paper.position < 80 * (paper.top + 25) := shows.inView.below
  have start : (display.crtPos - display.crtPos % 80).toNat =
      display.crtPos.toNat - display.crtPos.toNat % 80 := by
    have rest : (display.crtPos % 80).toNat = display.crtPos.toNat % 80 := by
      simp [BitVec.toNat_umod]
    rw [BitVec.toNat_sub_of_le (by rw [BitVec.le_def, rest]; omega), rest]
  unfold Display.carriageReturn Teletype.startOfLine
  refine ⟨⟨?_, ?_⟩, ?_, shows.cells⟩
  · simp only [crtCols]
    omega
  · simp only [crtCols, crtRows]
    omega
  · dsimp only
    rw [start, crtCols]
    omega

theorem Shows.lineFeed :
    Shows display.lineFeed.carriageReturn.scroll (paper.newLine crtRows crtCols 0x0720) := by
  have position : paper.position = 80 * paper.top + display.crtPos.toNat := shows.position
  have bound : display.crtPos.toNat < 2000 := shows.crtPos_lt
  have down : (display.crtPos + 80).toNat = display.crtPos.toNat + 80 := by bv_omega
  have start : display.lineFeed.carriageReturn.crtPos.toNat =
      display.crtPos.toNat + 80 - display.crtPos.toNat % 80 := by
    have rest : ((display.crtPos + 80) % 80).toNat = display.crtPos.toNat % 80 := by
      rw [BitVec.toNat_umod, down]
      simp
    simp only [Display.lineFeed, Display.carriageReturn]
    rw [BitVec.toNat_sub_of_le (by rw [BitVec.le_def, rest, down]; omega), rest, down]
  refine shows_scroll ?_ ?_ shows.cells
  · rw [start, crtCols]
    dsimp only
    omega
  · rw [start, crtSize, crtRows, crtCols]
    omega

theorem Shows.moveRight :
    Shows display.moveRight.scroll (paper.forward crtRows crtCols 0x0720) := by
  have position : paper.position = 80 * paper.top + display.crtPos.toNat := shows.position
  have bound : display.crtPos.toNat < 2000 := shows.crtPos_lt
  have right : (display.crtPos + 1).toNat = display.crtPos.toNat + 1 := by bv_omega
  rw [Display.moveRight, if_pos shows.crtPos_lt]
  refine shows_scroll ?_ ?_ shows.cells
  · dsimp only
    rw [right, crtCols]
    omega
  · dsimp only
    rw [right, crtSize, crtRows, crtCols]
    omega

theorem Shows.writeCharacter {c : BitVec 32} (plain : c ≠ keyLeft ∧ c ≠ keyRight) :
    Shows (display.writeCharacter c).scroll
      (paper.write crtRows crtCols 0x0720 (c.setWidth 16)) := by
  have position : paper.position = 80 * paper.top + display.crtPos.toNat := shows.position
  have bound : display.crtPos.toNat < 2000 := shows.crtPos_lt
  have right : (display.crtPos + 1).toNat = display.crtPos.toNat + 1 := by bv_omega
  have moved : (display.writeCharacter c).crtPos = display.crtPos + 1 := by
    rw [Display.writeCharacter, if_pos plain]
    dsimp only [setCell]
    split <;> rfl
  have written : (display.writeCharacter c).crtBuf =
      Function.update display.crtBuf display.crtPos.toNat (c.setWidth 16) := by
    rw [Display.writeCharacter, if_pos plain]
    dsimp only [setCell]
    split <;> rfl
  refine shows_scroll ?_ ?_ ?_
  · rw [moved, right, crtCols]
    dsimp only
    omega
  · rw [moved, right, crtSize, crtRows, crtCols]
    omega
  · intro index below
    rw [written, Teletype.shown]
    dsimp only
    by_cases same : index = display.crtPos.toNat
    · rw [same, Function.update_self, ← shows.position, Function.update_self]
    · have := shows.position
      rw [Function.update_of_ne same, Function.update_of_ne (by omega)]
      exact shows.cells index below

theorem Shows.putSpace :
    Shows display.putSpace (paper.write crtRows crtCols 0x0720 0x0720) := by
  have plain : withAttribute 0x20 = 0x0720 := by decide
  unfold Display.putSpace cgaPutcWith
  rw [plain]
  dsimp only
  repeat rw [if_neg (by decide)]
  exact ((shows.lptPutc 0x20).writeCharacter (by decide)).moveCursor

/-- One character keeps the display on the paper. -/
theorem Shows.consPutc (c : BitVec 32) : Shows (display.consPutc c) (putOn paper c) := by
  have printed := shows.lptPutc c
  unfold Display.consPutc cgaPutc cgaPutcWith putOn
  dsimp only
  generalize display.lptPutc c = display at printed
  generalize withAttribute c = c
  by_cases back : c &&& 0xFF = 0x08
  · rw [if_pos back, if_pos back]
    exact (printed.backspace c).scroll.moveCursor
  by_cases feed : c &&& 0xFF = 0x0A
  · rw [if_neg back, if_neg back, if_pos feed, if_pos feed]
    exact printed.lineFeed.moveCursor
  by_cases carriage : c &&& 0xFF = 0x0D
  · rw [if_neg back, if_neg back, if_neg feed, if_neg feed, if_pos carriage, if_pos carriage]
    exact printed.carriageReturn.scroll.moveCursor
  rw [if_neg back, if_neg back, if_neg feed, if_neg feed, if_neg carriage, if_neg carriage]
  by_cases tab : c &&& 0xFF = 0x09
  · rw [if_pos tab, if_pos tab]
    exact printed.putSpace.putSpace.putSpace.putSpace.putSpace.scroll.moveCursor
  by_cases left : c &&& 0xFF = 228
  · rw [if_neg tab, if_neg tab, if_pos left, if_pos left]
    exact printed.moveLeft.scroll.moveCursor
  by_cases right : c &&& 0xFF = 229
  · rw [if_neg tab, if_neg tab, if_neg left, if_neg left, if_pos right, if_pos right]
    exact printed.moveRight.moveCursor
  · rw [if_neg tab, if_neg tab, if_neg left, if_neg left, if_neg right, if_neg right]
    refine (printed.writeCharacter ⟨?_, ?_⟩).moveCursor
    · rintro rfl
      exact left (by decide)
    · rintro rfl
      exact right (by decide)

end Characters

theorem cursor_moveCursor (display : Display) : display.moveCursor.cursor = display.crtPos := by
  have high : display.moveCursor.registers 14 = (display.crtPos >>> 8).setWidth 8 := by
    simp [moveCursor]
  have low : display.moveCursor.registers 15 = display.crtPos.setWidth 8 := by
    simp [moveCursor]
  rw [cursor, high, low]
  ext index inside
  by_cases below : index < 8
  · simp [below, BitVec.getLsbD_eq_getElem inside]
  · have within : index - 8 < 8 := by omega
    have back : 8 + (index - 8) = index := by omega
    simp [below, within, back, BitVec.getLsbD_eq_getElem inside]

/-- The paper of a display that nothing was put on yet. -/
def paper (display : Display) : Paper := ⟨display.crtBuf, 0, display.crtPos.toNat⟩

theorem shows_paper {display : Display} (onScreen : display.crtPos.toNat < crtSize) :
    Shows display display.paper where
  inView := by
    refine ⟨Nat.zero_le _, ?_⟩
    simp only [paper, crtCols, crtRows, crtSize] at *
    omega
  position := by simp only [paper, Nat.mul_zero, Nat.zero_add]
  cells index _ := by simp only [paper, Teletype.shown, Nat.mul_zero, Nat.zero_add]

theorem Shows.output {display : Display} {paper : Paper} (shows : Shows display paper)
    (output : List (BitVec 32)) :
    Shows (output.foldl Display.consPutc display) (output.foldl putOn paper) := by
  induction output generalizing display paper with
  | nil => exact shows
  | cons c output induction => exact induction (shows.consPutc c)

/-- After any output the display shows the last 25 rows that are in use on the teletype, and the
hardware cursor is at its position. -/
theorem output_shows_teletype (display : Display) (output : List (BitVec 32))
    (onScreen : display.crtPos.toNat < crtSize) (synced : display.cursor = display.crtPos) :
    Shows (output.foldl Display.consPutc display) (output.foldl putOn display.paper) ∧
      (output.foldl Display.consPutc display).cursor =
        (output.foldl Display.consPutc display).crtPos := by
  refine ⟨(shows_paper onScreen).output output, ?_⟩
  clear onScreen
  induction output generalizing display with
  | nil => exact synced
  | cons c output induction => exact induction _ (cursor_moveCursor _)

theorem output_shows_teletype_sample :
    let output : List (BitVec 32) := [0x48, 0x69, 0x0A, 0x21]
    Shows (output.foldl Display.consPutc .empty) (output.foldl putOn Display.empty.paper) ∧
      (output.foldl Display.consPutc .empty).cursor =
        (output.foldl Display.consPutc .empty).crtPos :=
  output_shows_teletype .empty _ (by decide) (by decide)

/-- The characters that take up a cell. -/
def TakesCell (c : BitVec 32) : Prop :=
  ∀ key ∈ [0x08, 0x0A, 0x0D, 0x09, 228, 229], withAttribute c &&& 0xFF ≠ key

theorem putOn_cell {c : BitVec 32} (takes : TakesCell c) (paper : Paper) :
    putOn paper c =
      paper.write crtRows crtCols 0x0720 ((withAttribute c).setWidth 16) := by
  unfold putOn
  dsimp only
  rw [if_neg (takes _ (by simp)), if_neg (takes _ (by simp)), if_neg (takes _ (by simp)),
    if_neg (takes _ (by simp)), if_neg (takes _ (by simp)), if_neg (takes _ (by simp))]

/-- A text stands on the display in front of the cursor, as far as it fits. -/
theorem text_before_cursor (display : Display) (output : List (BitVec 32))
    (onScreen : display.crtPos.toNat < crtSize) (takes : ∀ c ∈ output, TakesCell c)
    (index : Nat) (below : index < output.length)
    (fits : output.length - index ≤ (output.foldl Display.consPutc display).crtPos.toNat) :
    (output.foldl Display.consPutc display).crtBuf
        ((output.foldl Display.consPutc display).crtPos.toNat - (output.length - index)) =
      (withAttribute output[index]).setWidth 16 := by
  have onPaper : output.foldl putOn display.paper =
      display.paper.writeAll crtRows crtCols 0x0720
        (output.map fun c => (withAttribute c).setWidth 16) := by
    generalize display.paper = paper
    clear fits below
    induction output generalizing paper with
    | nil => rfl
    | cons c output induction =>
        rw [List.foldl_cons, putOn_cell (takes c List.mem_cons_self),
          induction fun other member => takes other (List.mem_cons_of_mem c member)]
        rfl
  have shows := (shows_paper onScreen).output output
  rw [onPaper] at shows
  rcases Teletype.writeAll_paper (by decide) (by decide)
    (output.map fun c => (withAttribute c).setWidth 16) (shows_paper onScreen).inView with
    ⟨-, position, -, written⟩
  have cell := written index (by simpa using below)
  rw [List.getElem_map] at cell
  rw [shows.cells _ (by have := shows.crtPos_lt; omega), ← cell, Teletype.shown]
  congr 1
  have := shows.position
  rw [position, List.length_map] at this
  omega

theorem text_before_cursor_sample :
    let output : List (BitVec 32) := [0x48, 0x69]
    (output.foldl Display.consPutc .empty).crtBuf
        ((output.foldl Display.consPutc .empty).crtPos.toNat - 2) = 0x0748 := by
  refine text_before_cursor .empty [0x48, 0x69] (by decide) ?_ 0 (by decide) (by decide)
  intro c member key control
  simp only [List.mem_cons, List.not_mem_nil, or_false] at member control
  rcases member with rfl | rfl <;> rcases control with rfl | rfl | rfl | rfl | rfl | rfl <;> decide

end Display

end FosKernel.Console
