import FosKernel.Console.Input

/-! # The console input buffer

Characters reach `cons_getc` and `cons_getc2` in the order in which the keyboard and the serial
line deliver them. The buffer is a ring, so that the 512th character that waits makes it empty.
-/

namespace FosKernel.Console

open RingBuffer

/-! ## The procedures of the ports -/

theorem charcode_lt (shift : BitVec 32) (data : Byte) :
    ((charcode shift data).setWidth 32).toNat < 256 := by
  rw [BitVec.toNat_setWidth]
  omega

theorem swapCase_lt {c : BitVec 32} (bound : c.toNat < 256) : (swapCase c).toNat < 256 := by
  have positive : c.toInt = c.toNat := BitVec.toInt_eq_toNat_of_lt (by omega)
  unfold swapCase
  rw [positive]
  split_ifs
  · bv_omega
  · bv_omega
  · exact bound

@[simp] theorem deleteCell_cons (console : Console) : console.deleteCell.2.cons = console.cons := by
  unfold deleteCell
  dsimp only
  split_ifs <;> rfl

@[simp] theorem deleteCell_serialExists (console : Console) :
    console.deleteCell.2.serialExists = console.serialExists := by
  unfold deleteCell
  dsimp only
  split_ifs <;> rfl

theorem deleteCell_lt (console : Console) : console.deleteCell.1.toNat < 256 := by
  unfold deleteCell
  dsimp only
  split_ifs <;> simp

@[simp] theorem processSpecialKeys_cons (console : Console) (c : BitVec 32) :
    (console.processSpecialKeys c).2.cons = console.cons := by
  unfold processSpecialKeys
  split_ifs <;> rfl

@[simp] theorem processSpecialKeys_serialExists (console : Console) (c : BitVec 32) :
    (console.processSpecialKeys c).2.serialExists = console.serialExists := by
  unfold processSpecialKeys
  split_ifs <;> rfl

theorem processSpecialKeys_lt (console : Console) {c : BitVec 32} (bound : c.toNat < 256) :
    (console.processSpecialKeys c).1.toNat < 256 := by
  unfold processSpecialKeys
  split_ifs <;> first | exact bound | simp

theorem swapCase_ne_keyDel {c : BitVec 32} (bound : c.toNat < 256)
    (other : c ≠ keyDel.setWidth 32) : swapCase c ≠ keyDel.setWidth 32 := by
  have positive : c.toInt = c.toNat := BitVec.toInt_eq_toNat_of_lt (by omega)
  unfold swapCase
  rw [positive]
  split_ifs
  · bv_omega
  · bv_omega
  · exact other

/-- A scan code changes `shift`, and then it stands for nothing, for the delete key or for another
character. -/
theorem kbdProcData_cases (data : Byte) (console : Console) :
    ∃ shift, kbdProcData data console = (0, { console with shift }) ∨
      kbdProcData data console = deleteCell { console with shift } ∨
      ∃ c, c.toNat < 256 ∧ c ≠ keyDel.setWidth 32 ∧
        kbdProcData data console = processSpecialKeys { console with shift } c := by
  unfold kbdProcData
  dsimp only
  by_cases extended : data = 0xE0
  · exact ⟨_, .inl (if_pos extended)⟩
  by_cases released : data &&& 0x80 ≠ 0
  · exact ⟨_, .inl ((if_neg extended).trans (if_pos released))⟩
  rw [if_neg extended, if_neg released]
  generalize (if console.shift &&& e0Esc ≠ 0 then data ||| 0x80 else data) = code
  generalize (_ : BitVec 32) ^^^ togglecode code = shift
  refine ⟨shift, .inr ?_⟩
  have bound := charcode_lt shift code
  generalize (charcode shift code).setWidth 32 = c at bound ⊢
  by_cases delete : c = keyDel.setWidth 32
  · exact .inl (if_pos delete)
  · rw [if_neg delete]
    refine .inr ⟨_, ?_, ?_, rfl⟩
    · split_ifs
      · exact swapCase_lt bound
      · exact bound
    · split_ifs
      · exact swapCase_ne_keyDel bound delete
      · exact delete

/-- What the input buffer needs to know of a procedure. -/
structure Delivers (proc : Byte → Console → BitVec 32 × Console) : Prop where
  cons : ∀ data console, (proc data console).2.cons = console.cons
  serialExists : ∀ data console, (proc data console).2.serialExists = console.serialExists
  byte : ∀ data console, (proc data console).1.toNat < 256

theorem kbdProcData_delivers : Delivers kbdProcData where
  cons data console := by
    rcases kbdProcData_cases data console with ⟨shift, nothing | delete | ⟨c, -, -, other⟩⟩
    · rw [nothing]
    · rw [delete, deleteCell_cons]
    · rw [other, processSpecialKeys_cons]
  serialExists data console := by
    rcases kbdProcData_cases data console with ⟨shift, nothing | delete | ⟨c, -, -, other⟩⟩
    · rw [nothing]
    · rw [delete, deleteCell_serialExists]
    · rw [other, processSpecialKeys_serialExists]
  byte data console := by
    rcases kbdProcData_cases data console with ⟨shift, nothing | delete | ⟨c, bound, -, other⟩⟩
    · rw [nothing]
      simp
    · rw [delete]
      exact deleteCell_lt _
    · rw [other]
      exact processSpecialKeys_lt _ bound

theorem serialProcData_delivers : Delivers serialProcData where
  cons _ _ := rfl
  serialExists _ _ := rfl
  byte data console := by
    simp only [serialProcData, BitVec.toNat_setWidth]
    omega

/-! ## The rounds of the buffer -/

/-- The character of a value, zero standing for none. -/
def asCharacter (c : BitVec 32) : List Byte := if c = 0 then [] else [c.setWidth 8]

/-- The characters that a procedure delivers. -/
def delivered (proc : Byte → Console → BitVec 32 × Console) : List Byte → Console → List Byte
  | [], _ => []
  | byte :: data, console =>
      let (c, after) := proc byte console
      asCharacter c ++ delivered proc data (after.stash c)

def serialDelivered (data : List Byte) (console : Console) : List Byte :=
  if console.serialExists then delivered serialProcData data console else []

/-- What an event means to the buffer. -/
def Event.round : Event → Console → Round Byte
  | .getc serial keyboard, console =>
      ⟨serialDelivered serial console ++
        delivered kbdProcData keyboard (serialIntr serial console), true⟩
  | .getc2 serial keyboard, console =>
      let arrived := delivered kbdProcData keyboard.toList (serialIntr serial.toList console)
      ⟨serialDelivered serial.toList console ++ arrived, !arrived.isEmpty⟩
  | .putc _, _ => ⟨[], false⟩

/-- The rounds of a run. -/
def rounds : List Event → Console → List (Round Byte)
  | [], _ => []
  | event :: events, console => event.round console :: rounds events (event.run console).2

/-- The characters that the ports deliver in a run. -/
def deliveries (events : List Event) (console : Console) : List Byte :=
  offeredBy (rounds events console)

/-- The characters that the callers get in a run. -/
def received (events : List Event) (console : Console) : List Byte :=
  (runAll events console).1.flatMap asCharacter

theorem stash_cons (c : BitVec 32) (console : Console) :
    (console.stash c).cons = console.cons.putAll (asCharacter c) := by
  unfold stash asCharacter
  split_ifs <;> rfl

theorem consIntr_cons {proc : Byte → Console → BitVec 32 × Console} (delivers : Delivers proc)
    (data : List Byte) (console : Console) :
    (consIntr proc data console).cons = console.cons.putAll (delivered proc data console) := by
  induction data generalizing console with
  | nil => rfl
  | cons byte data induction =>
      rw [consIntr, induction, stash_cons, delivers.cons, delivered, putAll_append]

theorem serialIntr_cons (data : List Byte) (console : Console) :
    (serialIntr data console).cons = console.cons.putAll (serialDelivered data console) := by
  unfold serialIntr serialDelivered
  split_ifs
  · exact consIntr_cons serialProcData_delivers data console
  · rfl

theorem delivered_ne_zero {proc : Byte → Console → BitVec 32 × Console} (delivers : Delivers proc)
    {data : List Byte} {console : Console} {char : Byte}
    (member : char ∈ delivered proc data console) : char ≠ 0 := by
  induction data generalizing console with
  | nil => cases member
  | cons byte data induction =>
      rcases List.mem_append.mp member with first | rest
      · unfold asCharacter at first
        split_ifs at first with zero
        · cases first
        · obtain rfl := List.mem_singleton.mp first
          have bound := delivers.byte byte console
          intro none
          refine zero (BitVec.eq_of_toNat_eq ?_)
          have := congrArg BitVec.toNat none
          rw [BitVec.toNat_setWidth, Nat.mod_eq_of_lt bound] at this
          simpa using this
      · exact induction rest

/-! ## One event -/

/-- No zero waits in the buffer, so that a zero result means that nothing waits. -/
def Nonzero (console : Console) : Prop := ∀ char ∈ console.cons.pending, char ≠ 0

theorem asCharacter_setWidth {char : Byte} (nonzero : char ≠ 0) :
    asCharacter (char.setWidth 32) = [char] := by
  have different : char.setWidth 32 ≠ 0 := by
    intro zero
    refine nonzero (BitVec.eq_of_toNat_eq ?_)
    have := congrArg BitVec.toNat zero
    rwa [BitVec.toNat_setWidth, Nat.mod_eq_of_lt (by omega)] at this
  rw [asCharacter, if_neg different, BitVec.setWidth_setWidth_of_le _ (by decide),
    BitVec.setWidth_eq]

theorem nextCharacter_serve {console : Console} (nonzero : Nonzero console) {before : Console}
    {round : Round Byte} (takes : round.takes = true)
    (put : console.cons = before.cons.putAll round.offered) :
    console.nextCharacter.2.cons = (before.cons.serve round).2 ∧
      asCharacter console.nextCharacter.1 = (before.cons.serve round).1 := by
  unfold nextCharacter RingBuffer.serve
  rw [if_pos takes, ← put]
  cases taken : console.cons.take with
  | none => exact ⟨rfl, rfl⟩
  | some found =>
      rcases found with ⟨char, rest⟩
      refine ⟨rfl, asCharacter_setWidth (nonzero char ?_)⟩
      rw [pending_take taken]
      exact List.mem_cons_self

theorem nonzero_of_putAll {before after : Console} {values : List Byte}
    (nonzero : Nonzero before) (values_ne : ∀ char ∈ values, char ≠ 0)
    (put : after.cons = before.cons.putAll values) : Nonzero after := by
  intro char member
  rw [put] at member
  exact (mem_pending_putAll member).elim (nonzero char) (values_ne char)

theorem round_ne_zero {event : Event} {console : Console} {char : Byte}
    (member : char ∈ (event.round console).offered) : char ≠ 0 := by
  have serialNe : ∀ {data console}, char ∈ serialDelivered data console → char ≠ 0 := by
    intro data console member
    unfold serialDelivered at member
    split_ifs at member
    · exact delivered_ne_zero serialProcData_delivers member
    · cases member
  cases event with
  | putc c => cases member
  | getc serial keyboard =>
      exact (List.mem_append.mp member).elim serialNe
        (delivered_ne_zero kbdProcData_delivers)
  | getc2 serial keyboard =>
      exact (List.mem_append.mp member).elim serialNe
        (delivered_ne_zero kbdProcData_delivers)

/-- An event does to the buffer what its round does, and its caller gets what the round takes. -/
theorem Event.run_serve (event : Event) {console : Console} (nonzero : Nonzero console) :
    (event.run console).2.cons = (console.cons.serve (event.round console)).2 ∧
      asCharacter (event.run console).1 = (console.cons.serve (event.round console)).1 := by
  cases event with
  | putc c => exact ⟨rfl, rfl⟩
  | getc serial keyboard =>
      have put : (kbdIntr keyboard (serialIntr serial console)).cons =
          console.cons.putAll (Event.round (.getc serial keyboard) console).offered := by
        simp only [kbdIntr, consIntr_cons kbdProcData_delivers, serialIntr_cons, Event.round,
          putAll_append]
      exact nextCharacter_serve
        (nonzero_of_putAll nonzero (fun _ member => round_ne_zero member) put) rfl put
  | getc2 serial keyboard =>
      cases keyboard with
      | none =>
          simp only [Event.run, consGetc2, Event.round, serve, Option.toList, delivered,
            List.append_nil, List.isEmpty_nil]
          exact ⟨serialIntr_cons _ _, rfl⟩
      | some data =>
          set between := serialIntr serial.toList console with betweenEqual
          have put : ((kbdProcData data between).2.stash (kbdProcData data between).1).cons =
              console.cons.putAll (Event.round (.getc2 serial (some data)) console).offered := by
            simp only [Event.round, Option.toList_some, delivered, List.append_nil,
              putAll_append, stash_cons, kbdProcData_delivers.cons]
            rw [betweenEqual, serialIntr_cons]
          have bound := kbdProcData_delivers.byte data between
          by_cases zero : (kbdProcData data between).1 = 0
          · have stays : (Event.round (.getc2 serial (some data)) console).takes = false := by
              simp [Event.round, delivered, asCharacter, ← betweenEqual, zero]
            simp only [Event.run, consGetc2, serve, stays, ← betweenEqual]
            rw [if_neg (by simp [zero])]
            exact ⟨put, rfl⟩
          · have takes : (Event.round (.getc2 serial (some data)) console).takes = true := by
              simpa [Event.round, delivered, asCharacter, ← betweenEqual] using zero
            have positive : 0 < (kbdProcData data between).1.toInt := by
              rw [BitVec.toInt_eq_toNat_of_lt (by omega)]
              have : (kbdProcData data between).1.toNat ≠ 0 :=
                fun none => zero (BitVec.eq_of_toNat_eq none)
              omega
            simp only [Event.run, consGetc2, ← betweenEqual]
            rw [if_pos positive]
            exact nextCharacter_serve
              (nonzero_of_putAll nonzero (fun _ member => round_ne_zero member) put) takes put

/-! ## Runs -/

theorem Event.run_nonzero (event : Event) {console : Console} (nonzero : Nonzero console) :
    Nonzero (event.run console).2 := by
  intro char member
  rw [(event.run_serve nonzero).1] at member
  exact (mem_pending_serve member).elim (nonzero char) round_ne_zero

theorem runAll_serveAll (events : List Event) {console : Console} (nonzero : Nonzero console) :
    (runAll events console).2.cons = (console.cons.serveAll (rounds events console)).2 ∧
      received events console = (console.cons.serveAll (rounds events console)).1 := by
  induction events generalizing console with
  | nil => exact ⟨rfl, rfl⟩
  | cons event events induction =>
      rcases event.run_serve nonzero with ⟨cons, got⟩
      rcases induction (event.run_nonzero nonzero) with ⟨finalCons, rest⟩
      rw [cons] at finalCons rest
      refine ⟨finalCons, ?_⟩
      simp only [received, runAll, List.flatMap_cons, rounds, serveAll] at rest ⊢
      rw [got, rest]

theorem rounds_length (events : List Event) (console : Console) :
    (rounds events console).length = events.length := by
  induction events generalizing console with
  | nil => rfl
  | cons event events induction => simp [rounds, induction]

theorem rounds_take (events : List Event) (console : Console) (count : Nat) :
    rounds (events.take count) console = (rounds events console).take count := by
  induction events generalizing console count with
  | nil => simp [rounds]
  | cons event events induction =>
      cases count with
      | zero => rfl
      | succ count => simp [rounds, induction]

theorem deliveries_ne_zero {events : List Event} {console : Console} {char : Byte}
    (member : char ∈ deliveries events console) : char ≠ 0 := by
  induction events generalizing console with
  | nil => cases member
  | cons event events induction =>
      exact (List.mem_append.mp member).elim round_ne_zero induction

/-- Fewer characters wait than the buffer has cells, at every time in a run. -/
def Roomy (events : List Event) (console : Console) : Prop :=
  ∀ count < events.length,
    (deliveries (events.take (count + 1)) console).length <
      (received (events.take count) console).length + consBufSize

instance (events : List Event) (console : Console) : Decidable (Roomy events console) :=
  inferInstanceAs (Decidable (∀ count < events.length, _ < _))

theorem Nonzero.of_idle {console : Console} (idle : console.cons.pending = []) :
    Nonzero console := by
  intro char member
  rw [idle] at member
  cases member

theorem deliveries_eq_iff (events : List Event) {console : Console}
    (idle : console.cons.pending = []) :
    deliveries events console =
        received events console ++ (runAll events console).2.cons.pending ↔
      Roomy events console := by
  have nonzero := Nonzero.of_idle idle
  rcases runAll_serveAll events nonzero with ⟨final, got⟩
  rw [final, got, deliveries, serveAll_eq_iff idle]
  unfold Keeps Roomy
  rw [rounds_length, ← pending_length, idle]
  refine forall₂_congr fun count inside => ?_
  rw [deliveries, rounds_take, (runAll_serveAll (events.take count) nonzero).2, rounds_take,
    List.length_nil, Nat.zero_add]

/-- Whatever order of polls, reads and output there is, the callers get the characters in the
order in which the ports deliver them. Only blocks of 512 consecutive characters are missing,
and none is missing exactly when fewer than 512 characters wait at every time. -/
theorem characters_in_order (events : List Event) (console : Console)
    (idle : console.cons.pending = []) :
    (∃ overflows front,
      deliveries events console = front ++ (runAll events console).2.cons.pending ∧
      Kept consBufSize overflows front (received events console)) ∧
    (deliveries events console =
        received events console ++ (runAll events console).2.cons.pending ↔
      Roomy events console) := by
  refine ⟨?_, deliveries_eq_iff events idle⟩
  rcases runAll_serveAll events (Nonzero.of_idle idle) with ⟨final, got⟩
  rw [final, got]
  exact serveAll_kept idle (rounds events console)

theorem characters_in_order_sample :
    let events := [Event.getc [0x41] [0x1E, 0x9E], .putc 0x61, .getc [] []]
    let console := initial .empty true
    deliveries events console =
      received events console ++ (runAll events console).2.cons.pending :=
  (characters_in_order _ _ rfl).2.mpr (by decide)

/-! ## Reads by user programs -/

/-- What user programs do: `sys_cgetc` and output. -/
def Event.byUser : Event → Bool
  | .getc _ _ => false
  | .getc2 _ _ => true
  | .putc _ => true

/-- The characters from the serial line that an event adds to the buffer. -/
def Event.serial : Event → Console → List Byte
  | .getc serial _, console => serialDelivered serial console
  | .getc2 serial _, console => serialDelivered serial.toList console
  | .putc _, _ => []

/-- The characters from the keyboard that an event adds to the buffer. -/
def Event.keys : Event → Console → List Byte
  | .getc serial keyboard, console =>
      delivered kbdProcData keyboard (serialIntr serial console)
  | .getc2 serial keyboard, console =>
      delivered kbdProcData keyboard.toList (serialIntr serial.toList console)
  | .putc _, _ => []

def serialCount : List Event → Console → Nat
  | [], _ => 0
  | event :: events, console =>
      (event.serial console).length + serialCount events (event.run console).2

def keyCount : List Event → Console → Nat
  | [], _ => 0
  | event :: events, console =>
      (event.keys console).length + keyCount events (event.run console).2

theorem delivered_length_le {proc : Byte → Console → BitVec 32 × Console} {data : Option Byte}
    {console : Console} : (delivered proc data.toList console).length ≤ 1 := by
  cases data with
  | none => simp [delivered]
  | some byte =>
      simp only [Option.toList_some, delivered, asCharacter]
      split_ifs <;> simp

/-- A read by a user program takes as many characters as the keyboard adds. -/
theorem Event.run_byUser {event : Event} (user : event.byUser = true) {console : Console}
    (nonzero : Nonzero console)
    (room : console.cons.length + (event.serial console).length + 1 < consBufSize) :
    (event.run console).2.cons.length =
        console.cons.length + (event.serial console).length ∧
      (asCharacter (event.run console).1).length = (event.keys console).length := by
  rcases event.run_serve nonzero with ⟨cons, got⟩
  rw [cons, got]
  cases event with
  | getc serial keyboard => cases user
  | putc c => exact ⟨rfl, rfl⟩
  | getc2 serial keyboard =>
      have few : (delivered kbdProcData keyboard.toList
          (serialIntr serial.toList console)).length ≤ 1 := delivered_length_le
      simp only [Event.serial, Event.keys, Event.round] at room ⊢
      generalize delivered kbdProcData keyboard.toList (serialIntr serial.toList console) = keys
        at few ⊢
      generalize serialDelivered serial.toList console = serial at room ⊢
      have roomy : console.cons.length + (serial ++ keys).length < consBufSize := by
        rw [List.length_append]
        omega
      rcases (length_serve roomy : _ ∧ (console.cons.serve ⟨_, !keys.isEmpty⟩).1.length = _) with
        ⟨total, taken⟩
      rw [List.length_append] at total taken
      cases keys with
      | nil =>
          rw [if_neg (by simp)] at taken
          rw [List.length_nil] at total ⊢
          omega
      | cons key rest =>
          rw [List.length_cons] at few total taken ⊢
          rw [if_pos ⟨rfl, by omega⟩] at taken
          omega

/-- The characters from the serial line stay in the buffer, and a program gets one character for
each character from the keyboard. -/
theorem user_reads_wait_for_keys (events : List Event) (console : Console)
    (user : ∀ event ∈ events, event.byUser = true) (idle : console.cons.pending = [])
    (few : serialCount events console + 1 < consBufSize) :
    (runAll events console).2.cons.pending.length = serialCount events console ∧
      (received events console).length = keyCount events console := by
  suffices general : ∀ console : Console, Nonzero console →
      console.cons.length + serialCount events console + 1 < consBufSize →
      (runAll events console).2.cons.length =
          console.cons.length + serialCount events console ∧
        (received events console).length = keyCount events console by
    have zero : console.cons.length = 0 := by rw [← pending_length, idle, List.length_nil]
    have := general console (.of_idle idle) (by omega)
    rwa [zero, Nat.zero_add, ← pending_length] at this
  clear idle few
  induction events with
  | nil => exact fun _ _ _ => ⟨rfl, rfl⟩
  | cons event events induction =>
      intro console nonzero room
      simp only [serialCount] at room ⊢
      rcases event.run_byUser (user event List.mem_cons_self) nonzero (by omega) with
        ⟨grown, one⟩
      rcases induction (fun other member => user other (List.mem_cons_of_mem _ member)) _
        (event.run_nonzero nonzero) (by omega) with ⟨total, rest⟩
      refine ⟨total.trans (by omega), ?_⟩
      simp only [received, runAll, List.flatMap_cons, List.length_append, keyCount] at rest ⊢
      omega

theorem user_reads_wait_for_keys_sample :
    let events := [Event.getc2 (some 0x41) none, .getc2 (some 0x42) (some 0x1E)]
    let console := initial .empty true
    (runAll events console).2.cons.pending.length = serialCount events console ∧
      (received events console).length = keyCount events console :=
  user_reads_wait_for_keys _ _ (by decide) rfl (by decide)

end FosKernel.Console
