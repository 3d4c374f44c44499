import FosKernel.Refinement.Scheduler

/-! # Multi-level feedback queues

`fos_scheduler_MLFQ` works on a new array of queues at every call, gives up when an
environment is running, skips levels and never sets the quantum. It meets its
specification only when there is nothing to run.
-/

namespace FosKernel.Mlfq

open LinkedList

/-- The checker's variables after `chk1`, with the environment that `schenv` predicts. -/
def predicted (state : Sched) : Sched :=
  Sched.schenv
    { state with
      pe := state.curenv
      pl := if state.curenv = none then 0 else state.nl }

/-- The queue of a level after the call: the running environment is placed one level
below its own, and the next environment is taken out. -/
def expected (state : Sched) (contents : Nat → List Nat) (level : Nat) : List Nat :=
  let placed := match state.curenv with
    | none => contents level
    | some env =>
        if level = min (state.nl + 1) (state.numOfReadyQueues - 1) then env :: contents level
        else contents level
  match (predicted state).ne with
  | none => placed
  | some next => placed.erase next

/-- One call of `fos_scheduler` as it is specified. -/
structure Follows (depth : Nat) (state : Sched) (contents : Nat → List Nat) : Prop where
  selection : ∃ next after, selectNext state.chk1 = .ok (next, after) ∧
    next = (predicted state).ne ∧
    (∀ level < state.numOfReadyQueues, Represents after.links (after.envReadyQueues level)
      (expected state contents level)) ∧
    (next ≠ none → after.quantumWrites =
      state.quantumWrites ++ [state.quantums (predicted state).nl]) ∧
    (next = none →
      state.curenv = none ∧ ∀ level < state.numOfReadyQueues, contents level = [])
  dispatched : ∃ final, fosScheduler (depth + 1) state = .error (.switched final) ∧
    final.curenv = (predicted state).ne

/-- `n` queues and a running environment at one of their levels. -/
structure Leveled (state : Sched) (contents : Nat → List Nat) : Prop where
  method : state.schedulerMethod = .mlfq
  some : 1 ≤ state.numOfReadyQueues
  counted : state.numOfReadyQueues < 256
  level : state.nl < state.numOfReadyQueues
  queues : ∀ level < state.numOfReadyQueues,
    Represents state.links (state.envReadyQueues level) (contents level)

/-- Nothing runs or waits, the new array reads as empty queues, and the counter of levels
does not wrap around. -/
structure NothingToRun (state : Sched) (contents : Nat → List Nat) : Prop where
  idle : state.curenv = none
  empty : ∀ level < state.numOfReadyQueues, contents level = []
  fresh : ∀ level < state.numOfReadyQueues, (state.freshQueues 0 level).first = none ∧
    (state.freshQueues 0 level).last = none ∧ (state.freshQueues 0 level).size = 0
  ends : state.numOfReadyQueues ≠ 255

section Scan

/-- The scan never sets the quantum, and without a result it changes nothing. -/
theorem scanLevels_ok {fuel level : Nat} {state after : Sched} {next : Option Nat}
    (returned : scanLevels fuel level state = .ok (next, after)) :
    after.quantumWrites = state.quantumWrites ∧ (next = none → after = state) := by
  induction fuel generalizing level with
  | zero => cases returned
  | succ fuel induction =>
      change (if level < state.numOfReadyQueues then
          if state.queueSize (.ready level) ≠ 0 then _ else _ else _ : Scheduling _) state = _
        at returned
      split at returned
      · split at returned
        · cases last : (state.queue (.ready level)).last with
          | none =>
              have dequeued : state.dequeue (.ready level) = (none, state) := by
                simp [Sched.dequeue, last]
              rw [dequeued] at returned
              exact induction returned
          | some env =>
              have dequeued : state.dequeue (.ready level) =
                  (some env, state.removeFromQueue (.ready level) env) := by
                simp [Sched.dequeue, last]
              rw [dequeued] at returned
              cases returned
              exact ⟨rfl, fun impossible => by cases impossible⟩
        · exact induction returned
      · cases returned
        exact ⟨rfl, fun _ => rfl⟩

/-- Over empty queues the scan ends, unless its counter wraps around. -/
theorem scanLevels_empty {fuel level : Nat} {state : Sched}
    (empty : ∀ level < state.numOfReadyQueues, state.queueSize (.ready level) = 0)
    (few : state.numOfReadyQueues < 255) (fueled : 0 < fuel)
    (enough : state.numOfReadyQueues < fuel + level) :
    scanLevels fuel level state = .ok (none, state) := by
  induction fuel generalizing level with
  | zero => cases fueled
  | succ fuel induction =>
      change (if level < state.numOfReadyQueues then
          if state.queueSize (.ready level) ≠ 0 then _ else scanLevels fuel ((level + 2) % 256)
        else _ : Scheduling _) state = _
      by_cases inside : level < state.numOfReadyQueues
      · have next : (level + 2) % 256 = level + 2 := Nat.mod_eq_of_lt (by omega)
        rw [if_pos inside, if_neg (not_not.mpr (empty level inside)), next]
        exact induction (by omega) (by omega)
      · rw [if_neg inside]
        rfl

theorem scanLevels_endless {fuel level : Nat} {state : Sched}
    (empty : ∀ level < state.numOfReadyQueues, state.queueSize (.ready level) = 0)
    (all : state.numOfReadyQueues = 255) (even : level % 2 = 0) (bound : level < 256) :
    scanLevels fuel level state = .error (.failed .endless) := by
  induction fuel generalizing level with
  | zero => rfl
  | succ fuel induction =>
      have inside : level < state.numOfReadyQueues := by omega
      change (if level < state.numOfReadyQueues then
          if state.queueSize (.ready level) ≠ 0 then _ else scanLevels fuel ((level + 2) % 256)
        else _ : Scheduling _) state = _
      rw [if_pos inside, if_neg (not_not.mpr (empty level inside))]
      exact induction (by omega) (by omega)

end Scan

section Checker

variable {state : Sched} {contents : Nat → List Nat}

theorem schenv_shape (state : Sched) :
    state.schenv = { state with ne := state.schenv.ne, nl := state.schenv.nl } := by
  unfold Sched.schenv
  cases state.firstNonEmpty with
  | none =>
      dsimp only
      cases state.curenv <;> rfl
  | some pair =>
      dsimp only
      cases state.curenv with
      | none => rfl
      | some env =>
          dsimp only
          split_ifs <;> rfl

theorem chk1_active (active : state.chkstatus ≠ 0) : state.chk1 = predicted state := by
  rw [Sched.chk1, if_neg active, predicted]
  cases state.curenv <;> rfl

theorem chk1_shape (state : Sched) :
    ∃ pe ne pl nl, state.chk1 = { state with pe, ne, pl, nl } ∧
      (state.chkstatus ≠ 0 → pe = state.curenv ∧ ne = (predicted state).ne) := by
  by_cases active : state.chkstatus = 0
  · refine ⟨state.pe, state.ne, state.pl, state.nl, ?_, fun other => absurd active other⟩
    rw [Sched.chk1, if_pos active]
  · rw [chk1_active active]
    exact ⟨_, _, _, _, schenv_shape _, fun _ => ⟨rfl, rfl⟩⟩

/-- Without environments nothing is predicted. -/
theorem schenv_none (idle : state.curenv = none)
    (empty : ∀ level < state.numOfReadyQueues, state.queueSize (.ready level) = 0) :
    state.schenv.ne = none := by
  have nothing : state.firstNonEmpty = none := by
    refine List.findSome?_eq_none_iff.mpr fun level member => ?_
    exact if_neg (not_not.mpr (empty level (List.mem_range.mp member)))
  rw [Sched.schenv, nothing]
  dsimp only
  rw [idle]

end Checker

section Calls

variable {depth : Nat} {state : Sched} {contents : Nat → List Nat}

/-- The state in which the levels are scanned. -/
def renewed (state : Sched) : Sched :=
  { state with
    envReadyQueues := state.freshQueues 0
    freshQueues := fun array => state.freshQueues (array + 1) }

theorem selectNext_mlfq {state : Sched} (method : state.schedulerMethod = .mlfq) :
    selectNext state = match state.curenv with
      | none => scanLevels 257 0 (renewed state)
      | some _ => .ok (none, renewed state) := by
  rw [Sched.selectNext_levels method]
  change (match state.curenv with
    | none => scanLevels 257 0
    | some _ => pure none : Scheduling _) (renewed state) = _
  cases state.curenv <;> rfl

/-- Nothing that the scheduler selects under this method comes with its quantum. -/
theorem selectNext_mlfq_ok {after : Sched} {next : Option Nat}
    (method : state.schedulerMethod = .mlfq)
    (returned : selectNext state = .ok (next, after)) :
    after.quantumWrites = state.quantumWrites ∧ (next = none → after = renewed state) := by
  rw [selectNext_mlfq method] at returned
  cases current : state.curenv with
  | none =>
      rw [current] at returned
      exact scanLevels_ok returned
  | some env =>
      rw [current] at returned
      cases returned
      exact ⟨rfl, fun _ => rfl⟩

theorem selectNext_empty (method : state.schedulerMethod = .mlfq) (idle : state.curenv = none)
    (sizes : ∀ level < state.numOfReadyQueues, (state.freshQueues 0 level).size = 0)
    (few : state.numOfReadyQueues < 255) : selectNext state = .ok (none, renewed state) := by
  have enough : (renewed state).numOfReadyQueues < 257 + 0 :=
    show state.numOfReadyQueues < 257 by omega
  rw [selectNext_mlfq method, idle]
  exact scanLevels_empty sizes few (by omega) enough

theorem selectNext_endless (method : state.schedulerMethod = .mlfq)
    (idle : state.curenv = none)
    (sizes : ∀ level < state.numOfReadyQueues, (state.freshQueues 0 level).size = 0)
    (all : state.numOfReadyQueues = 255) :
    selectNext state = .error (.failed .endless) := by
  rw [selectNext_mlfq method, idle]
  exact scanLevels_endless sizes all rfl (by omega)

theorem NothingToRun.few (leveled : Leveled state contents)
    (nothing : NothingToRun state contents) : state.numOfReadyQueues < 255 := by
  have := leveled.counted
  have := nothing.ends
  omega

theorem Follows.nothingToRun (leveled : Leveled state contents)
    (follows : Follows depth state contents) : NothingToRun state contents := by
  rcases chk1_shape state with ⟨pe, ne, pl, nl, shape, -⟩
  rcases follows.selection with ⟨next, after, returned, -, queues, quantum, onlyWhen⟩
  rw [shape] at returned
  have method : { state with pe, ne, pl, nl }.schedulerMethod = .mlfq := leveled.method
  have selected := selectNext_mlfq_ok method returned
  have isNone : next = none := by
    by_contra isSome
    have written := quantum isSome
    rw [selected.1] at written
    simp at written
  rcases onlyWhen isNone with ⟨idle, empty⟩
  have renewal := selected.2 isNone
  have prediction : (predicted state).ne = none := by
    refine schenv_none idle fun level bound => ?_
    exact (leveled.queues level bound).size.trans (by rw [empty level bound]; rfl)
  have fresh : ∀ level < state.numOfReadyQueues, (state.freshQueues 0 level).first = none ∧
      (state.freshQueues 0 level).last = none ∧ (state.freshQueues 0 level).size = 0 := by
    intro level bound
    have represents := queues level bound
    rw [renewal] at represents
    simp only [expected, idle, prediction, empty level bound] at represents
    exact represents_nil.mp represents
  refine ⟨idle, empty, fresh, fun all => ?_⟩
  rw [selectNext_endless method idle (fun level bound => (fresh level bound).2.2) all] at returned
  cases returned

/-- The scheduler ends at the command prompt and its checker agrees. -/
theorem fosScheduler_nothing (leveled : Leveled state contents)
    (nothing : NothingToRun state contents) (prediction : (predicted state).ne = none) :
    ∃ final, fosScheduler (depth + 1) state = .error (.switched final) ∧
      final.curenv = none := by
  rcases chk1_shape state with ⟨pe, ne, pl, nl, shape, facts⟩
  have few := nothing.few leveled
  let started : Sched := { state with pe, ne, pl, nl, schedulerStatus := .started }
  have selected : selectNext started = .ok (none, renewed started) :=
    selectNext_empty leveled.method nothing.idle
      (fun level bound => (nothing.fresh level bound).2.2) few
  have check : Ensures (chk2 (fosScheduler depth) none) (renewed started)
      (fun _ after => after = renewed started) (fun _ => False) := by
    refine Ensures.bind_get (Ensures.ite (fun _ => Ensures.pure rfl) fun active => ?_)
    rcases facts active with ⟨noPrevious, isPredicted⟩
    have previous : (renewed started).pe = none := noPrevious.trans nothing.idle
    have next : (renewed started).ne = none := isPredicted.trans prediction
    rw [previous, next]
    exact Ensures.pure rfl
  have ensured : Ensures (fosScheduler (depth + 1)) state (fun _ _ => False)
      fun ending => ∃ final, ending = .switched final ∧ final.curenv = none := by
    refine Ensures.bind_modify (Ensures.bind_modify ?_)
    rw [shape]
    have selecting : Ensures selectNext started
        (fun next after => next = none ∧ after = renewed started)
        fun ending => ∃ final, ending = .switched final ∧ final.curenv = none := by
      rw [Ensures, selected]
      exact ⟨rfl, rfl⟩
    refine Ensures.bind selecting ?_
    rintro next after ⟨rfl, rfl⟩
    have idle : (renewed started).setCurenv none = renewed started := by
      rw [← show (renewed started).curenv = none from nothing.idle]
      rfl
    refine Ensures.bind_get (Ensures.bind_modify ?_)
    rw [idle]
    refine Ensures.bind (check.mono (fun _ _ same => same) fun _ impossible => impossible.elim) ?_
    rintro ⟨⟩ after rfl
    exact ⟨_, rfl, rfl⟩
  rcases ensured.raises with ⟨_, equal, final, rfl, noCurrent⟩
  exact ⟨final, equal, noCurrent⟩

theorem NothingToRun.follows (leveled : Leveled state contents)
    (nothing : NothingToRun state contents) : Follows depth state contents := by
  rcases chk1_shape state with ⟨pe, ne, pl, nl, shape, -⟩
  have method : { state with pe, ne, pl, nl }.schedulerMethod = .mlfq := leveled.method
  have prediction : (predicted state).ne = none := by
    refine schenv_none nothing.idle fun level bound => ?_
    have size := (leveled.queues level bound).size
    rw [nothing.empty level bound] at size
    exact size
  have few := nothing.few leveled
  constructor
  · have selected := selectNext_empty method nothing.idle
      (fun level bound => (nothing.fresh level bound).2.2) few
    rw [← shape] at selected
    refine ⟨none, _, selected, prediction.symm, ?_, fun isSome => absurd rfl isSome,
      fun _ => ⟨nothing.idle, nothing.empty⟩⟩
    rw [shape]
    intro level bound
    simp only [expected, nothing.idle, prediction, nothing.empty level bound]
    exact represents_nil.mpr (nothing.fresh level bound)
  · rw [prediction]
    exact fosScheduler_nothing leveled nothing prediction

/-- The scheduler follows its specification exactly when nothing runs or waits, the new
array of queues reads as empty and the counter of levels does not wrap around. -/
theorem mlfq_follows_iff_nothing_to_run (leveled : Leveled state contents) :
    Follows depth state contents ↔ NothingToRun state contents :=
  ⟨Follows.nothingToRun leveled, NothingToRun.follows leveled⟩

end Calls

/-- Two levels over zeroed memory, with the given environments in the first. -/
def sampleLevels (waiting : Option Nat) : Sched :=
  let empty : Sched :=
    { toEnvTable := { EnvTable.zero with envId := fun env => 0x1000#32 ||| BitVec.ofNat 32 env }
      envNewQueue := ⟨none, none, none, 0⟩
      envExitQueue := ⟨none, none, none, 0⟩
      envReadyQueues := fun _ => ⟨none, none, none, 0⟩
      numOfReadyQueues := 2
      quantums := fun _ => clockIntervalInMs
      schedulerMethod := .mlfq
      schedulerStatus := .stopped
      quantumWrites := []
      latch := fun _ => timerDiv clockIntervalInMs
      freshQueues := fun _ _ => ⟨none, none, none, 0⟩
      chkstatus := 1
      pe := none
      ne := none
      pl := 0
      nl := 0 }
  empty.enqueue (.ready 0) waiting

theorem mlfq_follows_two_empty_levels : Follows 0 (sampleLevels none) fun _ => [] := by
  refine (mlfq_follows_iff_nothing_to_run ⟨rfl, by decide, by decide, by decide, ?_⟩).mpr
    ⟨rfl, fun _ _ => rfl, fun _ _ => ⟨rfl, rfl, rfl⟩, by decide⟩
  exact fun _ _ => represents_nil.mpr ⟨rfl, rfl, rfl⟩

/-- One environment waits and is predicted; the scheduler looks at its new array and finds
none. -/
theorem mlfq_misses_waiting_environment :
    (predicted (sampleLevels (some 3))).ne = some 3 ∧
    Ensures selectNext (sampleLevels (some 3)).chk1 (fun next after => next = none ∧
      (after.envReadyQueues 0).first = none) (fun _ => False) ∧
    ¬Follows 0 (sampleLevels (some 3)) fun level => if level = 0 then [3] else [] := by
  have prediction : (predicted (sampleLevels (some 3))).ne = some 3 := by decide
  have selection : Ensures selectNext (sampleLevels (some 3)).chk1 (fun next after =>
      next = none ∧ (after.envReadyQueues 0).first = none) (fun _ => False) := by
    have selected : selectNext (sampleLevels (some 3)).chk1 =
        .ok (none, renewed (sampleLevels (some 3)).chk1) :=
      selectNext_empty rfl rfl (fun _ _ => rfl) (by decide)
    rw [Ensures, selected]
    exact ⟨rfl, rfl⟩
  refine ⟨prediction, selection, fun follows => ?_⟩
  rcases follows.selection with ⟨next, after, returned, isPredicted, -⟩
  rw [Ensures, returned] at selection
  rw [selection.1, prediction] at isPredicted
  cases isPredicted

end FosKernel.Mlfq
