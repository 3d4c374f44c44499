import FosKernel.Foundation.Emission
import Mathlib.Logic.Function.Basic

/-! # Sections without interruption

Agents share one datum and take turns at it. An agent may forbid the interruptions for a
while; then no other agent gets a turn. What the agents do is seen as a sequence of pieces,
each done as a whole.
-/

namespace FosKernel.Sections

variable {α σ : Type}

inductive Instruction (α : Type)
  | act (action : α)
  | disable
  | enable

/-- What an agent does without interruption: one action, or several of them. -/
inductive Piece (α : Type)
  | single (action : α)
  | together (actions : List α)

namespace Piece

def actions : Piece α → List α
  | single action => [action]
  | together actions => actions

def instructions : Piece α → List (Instruction α)
  | single action => [.act action]
  | together actions => .disable :: (actions.map .act ++ [.enable])

end Piece

structure Machine (α σ : Type) where
  data : σ
  running : Nat
  /-- The agents that have forbidden the interruptions. -/
  masked : Nat → Bool
  /-- What is left of the program of each agent. -/
  left : Nat → List (Instruction α)

namespace Machine

def advance (machine : Machine α σ) (rest : List (Instruction α)) : Machine α σ :=
  { machine with left := Function.update machine.left machine.running rest }

def mask (machine : Machine α σ) (masked : Bool) : Machine α σ :=
  { machine with masked := Function.update machine.masked machine.running masked }

/-- The programs before their first instructions. -/
def start (programs : Nat → List (Piece α)) (running : Nat) (data : σ) : Machine α σ where
  data := data
  running := running
  masked _ := false
  left agent := (programs agent).flatMap Piece.instructions

variable (perform : Nat → α → σ → σ)

inductive Step (machine : Machine α σ) : Machine α σ → Prop
  | act {action rest} : machine.left machine.running = .act action :: rest →
      Step machine
        { machine.advance rest with data := perform machine.running action machine.data }
  | disable {rest} : machine.left machine.running = .disable :: rest →
      Step machine ((machine.advance rest).mask true)
  | enable {rest} : machine.left machine.running = .enable :: rest →
      Step machine ((machine.advance rest).mask false)
  | interrupt (next) : machine.masked machine.running = false →
      Step machine { machine with running := next }

inductive Run (machine : Machine α σ) : Machine α σ → Prop
  | refl : Run machine machine
  | tail {middle final} : Run machine middle → Step perform middle final → Run machine final

end Machine

/-! ## The pieces in their order -/

/-- Pieces in the order in which they are done, each with its agent. -/
abbrev Schedule (α : Type) := List (Nat × Piece α)

namespace Schedule

/-- The pieces of one agent. -/
def own (agent : Nat) (schedule : Schedule α) : List (Piece α) :=
  (schedule.filter (·.1 = agent)).map (·.2)

def turns (schedule : Schedule α) : List (Nat × α) :=
  schedule.flatMap fun turn => turn.2.actions.map (turn.1, ·)

theorem turns_snoc (schedule : Schedule α) (agent : Nat) (piece : Piece α) :
    turns (schedule ++ [(agent, piece)]) = turns schedule ++ piece.actions.map (agent, ·) := by
  simp [turns]

/-- The first piece that waits is done. -/
theorem own_snoc {schedule : Schedule α} {waiting : Nat → List (Piece α)} {running : Nat}
    {piece : Piece α} {rest : List (Piece α)} (first : waiting running = piece :: rest)
    (agent : Nat) :
    own agent (schedule ++ [(running, piece)]) ++ Function.update waiting running rest agent =
      own agent schedule ++ waiting agent := by
  by_cases same : agent = running
  · subst same
    rw [Function.update_self, first]
    simp [own]
  · rw [Function.update_of_ne same]
    simp [own, Ne.symm same]

end Schedule

section Order

variable (perform : Nat → α → σ → σ) (programs : Nat → List (Piece α)) (data : σ)

/-- Do the actions of a schedule. -/
def performAll (turns : List (Nat × α)) (data : σ) : σ :=
  emit (fun turn => perform turn.1 turn.2) turns data

/-- No agent is inside a section. -/
structure Between (schedule : Schedule α) (waiting : Nat → List (Piece α))
    (machine : Machine α σ) : Prop where
  programs : ∀ agent, programs agent = schedule.own agent ++ waiting agent
  left : ∀ agent, machine.left agent = (waiting agent).flatMap Piece.instructions
  unmasked : ∀ agent, machine.masked agent = false
  data : machine.data = performAll perform schedule.turns data

/-- The agent that runs is inside a section, some actions of which are done. -/
structure Inside (schedule : Schedule α) (waiting : Nat → List (Piece α)) (done more : List α)
    (rest : List (Piece α)) (machine : Machine α σ) : Prop where
  programs : ∀ agent, programs agent = schedule.own agent ++ waiting agent
  opened : waiting machine.running = .together (done ++ more) :: rest
  left : ∀ agent, machine.left agent =
    if agent = machine.running then more.map .act ++ .enable :: rest.flatMap Piece.instructions
    else (waiting agent).flatMap Piece.instructions
  masked : ∀ agent, machine.masked agent = decide (agent = machine.running)
  data : machine.data =
    performAll perform (schedule.turns ++ done.map (machine.running, ·)) data

variable {perform programs data}
variable {schedule : Schedule α} {waiting : Nat → List (Piece α)} {machine next : Machine α σ}

theorem performAll_snoc (turns : List (Nat × α)) (agent : Nat) (action : α) (data : σ) :
    performAll perform (turns ++ [(agent, action)]) data =
      perform agent action (performAll perform turns data) := by
  rw [performAll, emit_append]
  rfl

theorem between_start (running : Nat) :
    Between perform programs data [] programs (.start programs running data) where
  programs _ := rfl
  left _ := rfl
  unmasked _ := rfl
  data := rfl

theorem Between.step (between : Between perform programs data schedule waiting machine)
    (step : machine.Step perform next) :
    (∃ schedule waiting, Between perform programs data schedule waiting next) ∨
      ∃ done more rest, Inside perform programs data schedule waiting done more rest next := by
  have own := between.left machine.running
  cases step with
  | @act action rest first =>
      cases waits : waiting machine.running with
      | nil => simp [waits, first] at own
      | cons piece others =>
          cases piece with
          | together actions => simp [waits, first, Piece.instructions] at own
          | single other =>
              simp only [waits, first, List.flatMap_cons, Piece.instructions, List.cons_append,
                List.nil_append, List.cons.injEq, Instruction.act.injEq] at own
              cases own.1
              left
              refine ⟨schedule ++ [(machine.running, .single action)],
                Function.update waiting machine.running others, ?_, ?_, between.unmasked, ?_⟩
              · intro agent
                rw [Schedule.own_snoc waits]
                exact between.programs agent
              · intro agent
                by_cases same : agent = machine.running
                · subst same
                  simpa [Machine.advance] using own.2
                · simpa [Machine.advance, same] using between.left agent
              · rw [Schedule.turns_snoc]
                exact (congrArg _ between.data).trans (performAll_snoc _ _ _ _).symm
  | @disable rest first =>
      cases waits : waiting machine.running with
      | nil => simp [waits, first] at own
      | cons piece others =>
          cases piece with
          | single other => simp [waits, first, Piece.instructions] at own
          | together actions =>
              simp only [waits, first, List.flatMap_cons, Piece.instructions, List.cons_append,
                List.append_assoc, List.nil_append, List.cons.injEq, true_and] at own
              right
              refine ⟨[], actions, others, between.programs, waits, ?_, ?_, ?_⟩
              · intro agent
                by_cases same : agent = machine.running
                · subst same
                  simpa [Machine.advance, Machine.mask] using own
                · simpa [Machine.advance, Machine.mask, same] using between.left agent
              · intro agent
                by_cases same : agent = machine.running
                · subst same
                  simp [Machine.advance, Machine.mask]
                · simpa [Machine.advance, Machine.mask, same] using between.unmasked agent
              · simpa [Machine.advance, Machine.mask] using between.data
  | @enable rest first =>
      cases waits : waiting machine.running with
      | nil => simp [waits, first] at own
      | cons piece others => cases piece <;> simp [waits, first, Piece.instructions] at own
  | interrupt next unmasked =>
      exact .inl ⟨schedule, waiting, between.programs, between.left, between.unmasked,
        between.data⟩

theorem Inside.step {done more : List α} {rest : List (Piece α)}
    (inside : Inside perform programs data schedule waiting done more rest machine)
    (step : machine.Step perform next) :
    (∃ schedule waiting, Between perform programs data schedule waiting next) ∨
      ∃ done more, Inside perform programs data schedule waiting done more rest next := by
  have own := inside.left machine.running
  rw [if_pos rfl] at own
  cases step with
  | @act action later first =>
      cases more with
      | nil => simp [first] at own
      | cons other more =>
          simp only [first, List.map_cons, List.cons_append, List.cons.injEq,
            Instruction.act.injEq] at own
          cases own.1
          right
          refine ⟨done ++ [action], more, inside.programs, ?_, ?_, inside.masked, ?_⟩
          · rw [List.append_assoc]
            exact inside.opened
          · intro agent
            by_cases same : agent = machine.running
            · subst same
              simpa [Machine.advance] using own.2
            · simpa [Machine.advance, same] using inside.left agent
          · rw [List.map_append, ← List.append_assoc]
            exact (congrArg _ inside.data).trans (performAll_snoc _ _ _ _).symm
  | @disable later first => cases more <;> simp [first] at own
  | @enable later first =>
      cases more with
      | cons other more => simp [first] at own
      | nil =>
          have opened := inside.opened
          rw [List.append_nil] at opened
          simp only [first, List.map_nil, List.nil_append, List.cons.injEq, true_and] at own
          left
          refine ⟨schedule ++ [(machine.running, .together done)],
            Function.update waiting machine.running rest, ?_, ?_, ?_, ?_⟩
          · intro agent
            rw [Schedule.own_snoc opened]
            exact inside.programs agent
          · intro agent
            by_cases same : agent = machine.running
            · subst same
              simpa [Machine.advance, Machine.mask] using own
            · simpa [Machine.advance, Machine.mask, same] using inside.left agent
          · intro agent
            by_cases same : agent = machine.running
            · subst same
              simp [Machine.advance, Machine.mask]
            · simpa [Machine.advance, Machine.mask, same] using inside.masked agent
          · rw [Schedule.turns_snoc]
            exact inside.data
  | interrupt next unmasked =>
      have masked := inside.masked machine.running
      simp [unmasked] at masked

/-- When the agent that runs may be interrupted, the pieces were done one after the other. -/
theorem run_in_order {running : Nat} (run : Machine.Run perform (.start programs running data) next)
    (unmasked : next.masked next.running = false) :
    ∃ schedule waiting, Between perform programs data schedule waiting next := by
  have reached : (∃ schedule waiting, Between perform programs data schedule waiting next) ∨
      ∃ schedule waiting done more rest,
        Inside perform programs data schedule waiting done more rest next := by
    clear unmasked
    induction run with
    | refl => exact .inl ⟨[], programs, between_start running⟩
    | tail run step induction =>
        rcases induction with ⟨schedule, waiting, between⟩ | ⟨schedule, waiting, _, _, _, inside⟩
        · rcases between.step step with ends | ⟨done, more, rest, inside⟩
          · exact .inl ends
          · exact .inr ⟨schedule, waiting, done, more, rest, inside⟩
        · rcases inside.step step with ends | ⟨done, more, inside⟩
          · exact .inl ends
          · exact .inr ⟨schedule, waiting, done, more, _, inside⟩
  rcases reached with between | ⟨_, _, _, _, _, inside⟩
  · exact between
  · have masked := inside.masked next.running
    simp [unmasked] at masked

end Order

end FosKernel.Sections
