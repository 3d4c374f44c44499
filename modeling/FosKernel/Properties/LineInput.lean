import FosKernel.Abstract.Strings
import FosKernel.Console.Readline
import FosKernel.Properties.ConsoleInput

/-! # Edited lines

`readline` leaves the line that its characters spell when a backspace takes the last one back,
and what it echoes spells the same line.
-/

namespace FosKernel.Console

/-- The line after one more character, of at most `limit`. -/
def edit (limit : Nat) (line : List Byte) (c : Int) : List Byte :=
  if 32 ≤ c ∧ line.length < limit then line ++ [BitVec.ofInt 8 c]
  else if c = 8 then line.dropLast
  else line

def editAll (limit : Nat) (chars : List Int) (line : List Byte) : List Byte :=
  chars.foldl (edit limit) line

/-- A character that ends a line. -/
def endsLine (c : Int) : Bool := c = 10 ∨ c = 13

/-- The buffer begins with a line that is `i` characters long. -/
structure Holding (before : Nat → Byte) (buffer : LineBuffer) (entry : List Byte) : Prop where
  length : entry.length = buffer.i
  limit : entry.length ≤ 1023
  nonzero : ∀ char ∈ entry, char ≠ 0
  chars : ∀ index (below : index < entry.length), buffer.buf index = entry[index]
  outside : ∀ index, 1024 ≤ index → buffer.buf index = before index
  reading : buffer.reading = true

/-- A value of `getchar` at the console. -/
structure Typed (c : Int) : Prop where
  positive : 0 < c
  byte : c < 256

theorem Typed.ne_zero {c : Int} (typed : Typed c) : BitVec.ofInt 8 c ≠ 0 := by
  rcases typed with ⟨positive, byte⟩
  intro zero
  have := congrArg BitVec.toNat zero
  rw [BitVec.toNat_ofInt] at this
  simp at this
  omega

section Handle

variable {before : Nat → Byte} {buffer : LineBuffer} {entry : List Byte} {c : Int}

/-- A character that does not end the line edits it, and what it echoes edits it as well. -/
theorem Holding.handle (holding : Holding before buffer entry) (typed : Typed c)
    (plain : endsLine c = false) :
    Holding before (buffer.handle c).1 (edit 1023 entry c) ∧
      editAll 1023 (buffer.handle c).2 entry = edit 1023 entry c := by
  have positive := typed.positive
  have length := holding.length
  have notLast : ¬(c = 10 ∨ c = 13) := by simpa [endsLine] using plain
  unfold LineBuffer.handle
  rw [if_neg (by omega), show Text.bufLen = 1024 from rfl]
  by_cases more : 32 ≤ c ∧ entry.length < 1023
  · rw [if_pos (by omega), show edit 1023 entry c = entry ++ [BitVec.ofInt 8 c] from if_pos more]
    refine ⟨?_, if_pos more⟩
    refine ⟨by simp [length], ?_, ?_, ?_, ?_, holding.reading⟩
    · rw [List.length_append, List.length_singleton]
      exact more.2
    · intro char member
      rcases List.mem_append.mp member with first | last
      · exact holding.nonzero char first
      · rw [List.mem_singleton.mp last]
        exact typed.ne_zero
    · intro index below
      rw [List.length_append, List.length_singleton] at below
      by_cases last : index = buffer.i
      · subst last
        simp [← length]
      · dsimp only
        rw [Function.update_of_ne last, List.getElem_append_left (by omega)]
        exact holding.chars index (by omega)
    · intro index outside
      dsimp only
      rw [Function.update_of_ne (by omega)]
      exact holding.outside index outside
  · rw [if_neg (by omega)]
    by_cases back : c = 8
    · have shorter : edit 1023 entry c = entry.dropLast := by
        rw [edit, if_neg more, if_pos back]
      rw [shorter]
      by_cases some : 0 < buffer.i
      · rw [if_pos ⟨back, some⟩]
        refine ⟨?_, shorter⟩
        refine ⟨by simp [length], ?_, ?_, ?_, holding.outside, holding.reading⟩
        · rw [List.length_dropLast]
          have := holding.limit
          omega
        · exact fun char member => holding.nonzero char (List.mem_of_mem_dropLast member)
        · intro index below
          rw [List.length_dropLast] at below
          rw [List.getElem_dropLast]
          exact holding.chars index (by omega)
      · have empty : entry = [] := List.eq_nil_of_length_eq_zero (by omega)
        subst empty
        rw [if_neg (by omega), if_neg notLast]
        exact ⟨holding, rfl⟩
    · have same : edit 1023 entry c = entry := by
        rw [edit, if_neg more, if_neg back]
      rw [same, if_neg (by omega), if_neg notLast]
      exact ⟨holding, rfl⟩

/-- The character that ends the line is followed by nothing more. -/
theorem Holding.finish (holding : Holding before buffer entry) (ends : endsLine c = true) :
    Text.StringAt (buffer.handle c).1.buf 0 entry ∧
      (∀ index, 1024 ≤ index → (buffer.handle c).1.buf index = before index) ∧
      (buffer.handle c).1.reading = false ∧ (buffer.handle c).2 = [c] := by
  have last : c = 10 ∨ c = 13 := by simpa [endsLine] using ends
  have length := holding.length
  have limit := holding.limit
  unfold LineBuffer.handle
  rw [if_neg (by omega), if_neg (by omega), if_neg (by omega), if_pos last]
  refine ⟨⟨holding.nonzero, ?_, ?_⟩, ?_, rfl, rfl⟩
  · intro index below
    dsimp only
    rw [Nat.zero_add, Function.update_of_ne (by omega)]
    exact holding.chars index below
  · dsimp only
    rw [Nat.zero_add, length, Function.update_self]
  · intro index outside
    dsimp only
    rw [Function.update_of_ne (by omega)]
    exact holding.outside index outside

end Handle

theorem Holding.readline {before : Nat → Byte} {buffer : LineBuffer} {entry : List Byte}
    (holding : Holding before buffer entry) {chars : List Int} {stop : Int}
    (typed : ∀ c ∈ chars, Typed c ∧ endsLine c = false) (ends : endsLine stop = true)
    (rest : List Int) :
    ∃ final echo, LineBuffer.readline (chars ++ stop :: rest) buffer =
        (final, echo ++ [stop], rest) ∧
      Text.StringAt final.buf 0 (editAll 1023 chars entry) ∧
      editAll 1023 echo entry = editAll 1023 chars entry ∧
      (editAll 1023 chars entry).length ≤ 1023 ∧
      ∀ index, 1024 ≤ index → final.buf index = before index := by
  induction chars generalizing buffer entry with
  | nil =>
      rcases holding.finish ends with ⟨string, outside, stopped, echoed⟩
      refine ⟨(buffer.handle stop).1, [], ?_, string, rfl, holding.limit, outside⟩
      simp [LineBuffer.readline, stopped, echoed]
  | cons c chars induction =>
      rcases typed c List.mem_cons_self with ⟨isTyped, plain⟩
      rcases holding.handle isTyped plain with ⟨after, echoed⟩
      rcases induction after (fun other member => typed other (List.mem_cons_of_mem c member))
        with ⟨final, echo, ran, string, same, rest⟩
      refine ⟨final, (buffer.handle c).2 ++ echo, ?_, string, ?_, rest⟩
      · simp [LineBuffer.readline, after.reading, ran]
      · rw [editAll, List.foldl_append]
        change editAll 1023 echo (editAll 1023 _ entry) = _
        rw [echoed, same]
        rfl

theorem holding_start (memory : Nat → Byte) : Holding memory (.start memory) [] where
  length := rfl
  limit := by decide
  nonzero _ member := absurd member List.not_mem_nil
  chars _ below := absurd below (Nat.not_lt_zero _)
  outside _ _ := rfl
  reading := rfl

/-- `readline` leaves the edited line and touches no more than its buffer. The echo spells the
line as well. -/
theorem readline_edits (memory : Nat → Byte) (chars rest : List Int) (stop : Int)
    (typed : ∀ c ∈ chars, Typed c ∧ endsLine c = false) (ends : endsLine stop = true) :
    ∃ final echo, LineBuffer.readline (chars ++ stop :: rest) (.start memory) =
        (final, echo ++ [stop], rest) ∧
      Text.StringAt final.buf 0 (editAll 1023 chars []) ∧
      editAll 1023 echo [] = editAll 1023 chars [] ∧
      (editAll 1023 chars []).length ≤ 1023 ∧
      ∀ index, 1024 ≤ index → final.buf index = memory index :=
  (holding_start memory).readline typed ends rest

theorem readline_edits_sample :
    ∃ final echo, LineBuffer.readline [0x61, 0x62, 0x08, 0x63, 0x0A, 0x64] (.start fun _ => 0) =
        (final, echo ++ [0x0A], [0x64]) ∧
      Text.StringAt final.buf 0 (editAll 1023 [0x61, 0x62, 0x08, 0x63] []) ∧
      editAll 1023 echo [] = editAll 1023 [0x61, 0x62, 0x08, 0x63] [] ∧
      (editAll 1023 [0x61, 0x62, 0x08, 0x63] []).length ≤ 1023 ∧
      ∀ index, 1024 ≤ index → final.buf index = 0 := by
  refine readline_edits (fun _ => 0) [0x61, 0x62, 0x08, 0x63] [0x64] 0x0A ?_ (by decide)
  intro c member
  simp only [List.mem_cons, List.not_mem_nil, or_false] at member
  rcases member with rfl | rfl | rfl | rfl <;> exact ⟨⟨by decide, by decide⟩, by decide⟩

/-! ## The line at the console -/

/-- The values of `getchar` for characters. -/
def values (chars : List Byte) : List Int := chars.map fun char => (char.toNat : Int)

theorem values_typed {char : Byte} (nonzero : char ≠ 0) : Typed char.toNat where
  positive := by
    have : char.toNat ≠ 0 := fun zero => nonzero (BitVec.eq_of_toNat_eq zero)
    omega
  byte := by omega

theorem runAll_append (first second : List Event) (console : Console) :
    (runAll (first ++ second) console).2 =
        (runAll second (runAll first console).2).2 ∧
      received (first ++ second) console =
        received first console ++ received second (runAll first console).2 := by
  induction first generalizing console with
  | nil => exact ⟨rfl, rfl⟩
  | cons event first induction =>
      rcases induction (event.run console).2 with ⟨final, got⟩
      refine ⟨final, ?_⟩
      simp only [received, List.cons_append, runAll, List.flatMap_cons, List.append_assoc] at got ⊢
      rw [got]

theorem received_putcs (chars : List (BitVec 32)) (console : Console) :
    received (chars.map Event.putc) console = [] := by
  induction chars generalizing console with
  | nil => rfl
  | cons c chars induction =>
      have := induction (Event.run (.putc c) console).2
      simp only [received, List.map_cons, runAll, List.flatMap_cons] at this ⊢
      rw [this]
      rfl

theorem nextCharacter_toInt (console : Console) :
    console.nextCharacter.1.toInt = (console.nextCharacter.1.setWidth 8).toNat := by
  unfold nextCharacter
  cases console.cons.take with
  | none => rfl
  | some found =>
      have bound : (found.1.setWidth 32).toNat < 2 ^ 8 := by
        rw [BitVec.toNat_setWidth]
        omega
      dsimp only
      rw [BitVec.toInt_eq_toNat_of_lt (by omega)]
      simp only [BitVec.toNat_setWidth]
      omega

/-- `readline` on the console is `readline` on the characters that it gets. -/
theorem readlineEvents_readline (polls : List Poll) (console : Console) (line : LineBuffer) :
    (runAll (readlineEvents polls console line).1 console).2 =
        (readlineEvents polls console line).2.1 ∧
      ∃ echo, LineBuffer.readline
          (values (received (readlineEvents polls console line).1 console)) line =
        ((readlineEvents polls console line).2.2, echo, []) := by
  induction polls generalizing console line with
  | nil => exact ⟨rfl, [], rfl⟩
  | cons poll polls induction =>
      set event := Event.getc poll.serial poll.keyboard with eventEqual
      have toInt : (event.run console).1.toInt = ((event.run console).1.setWidth 8).toNat :=
        nextCharacter_toInt _
      simp only [readlineEvents, ← eventEqual]
      by_cases zero : (event.run console).1 = 0
      · simp only [if_pos zero]
        rcases induction (event.run console).2 line with ⟨final, echo, ran⟩
        refine ⟨final, echo, ?_⟩
        have got : received (event :: (readlineEvents polls (event.run console).2 line).1) console =
            received (readlineEvents polls (event.run console).2 line).1 (event.run console).2 := by
          simp only [received, runAll, List.flatMap_cons, asCharacter, if_pos zero,
            List.nil_append]
        rw [got, ran]
      · simp only [if_neg zero]
        set handled := line.handle (event.run console).1.toInt with handledEqual
        set putcs := handled.2.map fun c => Event.putc (BitVec.ofInt 32 c) with putcsEqual
        have silent : ∀ console, received putcs console = [] := by
          intro console
          have := received_putcs (handled.2.map (BitVec.ofInt 32)) console
          rwa [List.map_map] at this
        have got : ∀ events, received (event :: (putcs ++ events)) console =
            (event.run console).1.setWidth 8 ::
              received events (runAll putcs (event.run console).2).2 := by
          intro events
          have rest := (runAll_append putcs events (event.run console).2).2
          rw [silent, List.nil_append] at rest
          rw [← rest]
          simp only [received, runAll, List.flatMap_cons, asCharacter, if_neg zero,
            List.singleton_append]
        by_cases reading : handled.1.reading = true
        · simp only [if_pos reading, List.cons_append]
          rcases induction (runAll putcs (event.run console).2).2 handled.1 with
            ⟨final, echo, ran⟩
          refine ⟨(runAll_append putcs _ _).1.trans final, handled.2 ++ echo, ?_⟩
          rw [got, values, List.map_cons, ← toInt, LineBuffer.readline, ← handledEqual]
          simp only [if_pos reading]
          rw [values] at ran
          rw [ran]
        · simp only [if_neg reading]
          refine ⟨rfl, handled.2, ?_⟩
          have only := got []
          rw [List.append_nil] at only
          rw [only, values, List.map_cons, ← toInt, LineBuffer.readline, ← handledEqual]
          simp only [if_neg reading]
          rfl

/-- `readline` returns on the first character that ends a line. -/
theorem readline_returned {chars : List Int} {line final : LineBuffer} {echo : List Int}
    (typed : ∀ c ∈ chars, Typed c) (reading : line.reading = true)
    (ran : LineBuffer.readline chars line = (final, echo, [])) (done : final.reading = false) :
    ∃ front stop, chars = front ++ [stop] ∧ (∀ c ∈ front, endsLine c = false) ∧
      endsLine stop = true := by
  have handled : ∀ c (line : LineBuffer), Typed c → line.reading = true →
      ((line.handle c).1.reading = true ↔ endsLine c = false) := by
    intro c line typed reading
    have := typed.positive
    unfold LineBuffer.handle
    rw [if_neg (by omega)]
    split_ifs <;> simp_all [endsLine]
    all_goals omega
  induction chars generalizing line echo with
  | nil =>
      cases ran
      rw [reading] at done
      cases done
  | cons c chars induction =>
      have own := handled c line (typed c List.mem_cons_self) reading
      rw [LineBuffer.readline] at ran
      by_cases continues : (line.handle c).1.reading = true
      · simp only [if_pos continues] at ran
        obtain ⟨finalEqual, -, restEqual⟩ := by simpa only [Prod.mk.injEq] using ran
        rcases induction (fun other member => typed other (List.mem_cons_of_mem c member))
          continues (Prod.ext finalEqual (Prod.ext rfl restEqual)) with
          ⟨front, stop, split, plain, ends⟩
        refine ⟨c :: front, stop, by rw [split, List.cons_append], ?_, ends⟩
        intro other member
        rcases List.mem_cons.mp member with rfl | later
        · exact own.mp continues
        · exact plain other later
      · simp only [if_neg continues] at ran
        obtain ⟨-, -, rfl⟩ := by simpa only [Prod.mk.injEq] using ran
        refine ⟨[], c, rfl, fun other member => absurd member List.not_mem_nil, ?_⟩
        simpa using mt own.mpr continues

/-- Whatever the polls find, the line that `readline` returns is spelled by the characters that
were delivered up to the first one that ends a line, if no more wait than the buffer holds. -/
theorem typed_line (polls : List Poll) (console : Console) (memory : Nat → Byte)
    (idle : console.cons.pending = [])
    (done : (readlineEvents polls console (.start memory)).2.2.reading = false)
    (roomy : Roomy (readlineEvents polls console (.start memory)).1 console) :
    ∃ chars stop waiting,
      deliveries (readlineEvents polls console (.start memory)).1 console =
        chars ++ stop :: waiting ∧
      (∀ char ∈ chars, endsLine char.toNat = false) ∧ endsLine stop.toNat = true ∧
      Text.StringAt (readlineEvents polls console (.start memory)).2.2.buf 0
        (editAll 1023 (values chars) []) ∧
      (∀ index, 1024 ≤ index →
        (readlineEvents polls console (.start memory)).2.2.buf index = memory index) ∧
      (readlineEvents polls console (.start memory)).2.1.cons.pending = waiting := by
  rcases readlineEvents_readline polls console (.start memory) with ⟨final, echo, ran⟩
  generalize readlineEvents polls console (.start memory) = result at *
  have split := (deliveries_eq_iff result.1 idle).mpr roomy
  have typed : ∀ char ∈ received result.1 console, Typed (char.toNat : Int) := by
    intro char member
    have member : char ∈ deliveries result.1 console := by
      rw [split]
      exact List.mem_append_left _ member
    exact values_typed (deliveries_ne_zero member)
  rcases readline_returned (by simpa [values] using typed) rfl ran done with
    ⟨front, stop, chars, plain, ends⟩
  rcases List.map_eq_append_iff.mp chars with ⟨frontChars, stopChars, got, rfl, last⟩
  rcases List.map_eq_singleton_iff.mp last with ⟨stopChar, rfl, rfl⟩
  have frontTyped : ∀ c ∈ values frontChars, Typed c ∧ endsLine c = false := by
    intro c member
    refine ⟨?_, plain c member⟩
    rcases List.mem_map.mp member with ⟨char, inFront, rfl⟩
    refine typed char ?_
    rw [got]
    exact List.mem_append_left _ inFront
  rcases (holding_start memory).readline frontTyped ends [] with
    ⟨edited, echoed, again, string, -, -, outside⟩
  have same : result.2.2 = edited := by
    rw [got, values, List.map_append] at ran
    rw [values] at again
    exact (congrArg Prod.fst (ran.symm.trans again))
  rw [same]
  refine ⟨frontChars, stopChar, result.2.1.cons.pending, ?_, ?_, ends, string, outside, rfl⟩
  · rw [split, got, ← final, List.append_assoc, List.singleton_append]
  · intro char member
    exact plain _ (List.mem_map_of_mem member)

theorem typed_line_sample :
    let polls : List Poll := [⟨[], [0x1E]⟩, ⟨[], [0x9E]⟩, ⟨[0x62], [0x1C]⟩, ⟨[], []⟩, ⟨[], []⟩]
    let console := initial .empty true
    let result := readlineEvents polls console (.start fun _ => 0)
    ∃ chars stop waiting,
      deliveries result.1 console = chars ++ stop :: waiting ∧
      (∀ char ∈ chars, endsLine char.toNat = false) ∧ endsLine stop.toNat = true ∧
      Text.StringAt result.2.2.buf 0 (editAll 1023 (values chars) []) ∧
      (∀ index, 1024 ≤ index → result.2.2.buf index = 0) ∧
      result.2.1.cons.pending = waiting :=
  typed_line _ _ (fun _ => 0) rfl (by decide) (by decide)

end FosKernel.Console
