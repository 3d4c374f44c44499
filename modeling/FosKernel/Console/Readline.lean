import FosKernel.Console.Input

/-! # Lines of input

`readline` of `lib/readline.c`, and its run on the console of the kernel, where `getchar` polls
the ports until there is a character.
-/

namespace FosKernel.Console

/-- The variables of `readline`. `buf` is the memory from the buffer on. -/
structure LineBuffer where
  buf : Nat → Byte
  i : Nat
  reading : Bool

namespace LineBuffer

/-- The buffer after a value of `getchar`, and what is echoed. -/
def handle (line : LineBuffer) (c : Int) : LineBuffer × List Int :=
  if c < 0 then ({ line with reading := false }, [])
  else if 32 ≤ c ∧ (line.i : Int) < Text.bufLen - 1 then
    ({ line with
      buf := Function.update line.buf line.i (BitVec.ofInt 8 c)
      i := line.i + 1 }, [c])
  else if c = 8 ∧ 0 < line.i then ({ line with i := line.i - 1 }, [c])
  else if c = 10 ∨ c = 13 then
    ({ line with buf := Function.update line.buf line.i 0, reading := false }, [c])
  else (line, [])

/-- The loop, for the values of `getchar`: what it leaves, what it echoes, and the values that it
does not look at. -/
def readline : List Int → LineBuffer → LineBuffer × List Int × List Int
  | [], line => (line, [], [])
  | c :: chars, line =>
      let (line, echo) := line.handle c
      if line.reading then
        let (final, echoed, rest) := readline chars line
        (final, echo ++ echoed, rest)
      else (line, echo, chars)

def start (buf : Nat → Byte) : LineBuffer := ⟨buf, 0, true⟩

end LineBuffer

/-- What the serial line and the keyboard deliver in one call of `cons_getc`. -/
structure Poll where
  serial : List Byte
  keyboard : List Byte

/-- The events of `readline` for what arrives in each poll, and what it leaves. -/
def readlineEvents : List Poll → Console → LineBuffer → List Event × Console × LineBuffer
  | [], console, line => ([], console, line)
  | poll :: polls, console, line =>
      let event := Event.getc poll.serial poll.keyboard
      let (c, console) := event.run console
      if c = 0 then
        let (events, console, line) := readlineEvents polls console line
        (event :: events, console, line)
      else
        let (line, echo) := line.handle c.toInt
        let putcs := echo.map fun c => Event.putc (BitVec.ofInt 32 c)
        let console := (runAll putcs console).2
        if line.reading then
          let (events, console, line) := readlineEvents polls console line
          (event :: putcs ++ events, console, line)
        else (event :: putcs, console, line)

end FosKernel.Console
