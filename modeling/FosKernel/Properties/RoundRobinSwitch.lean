import FosKernel.Refinement.Scheduler

/-! # The switch to round robin

`sched_init_RR` replaces the ready queues by one new queue before it sets the timer.
-/

namespace FosKernel.RoundRobinSwitch

open LinkedList

variable {state : Sched} {contents : Nat → List Nat} {quantum : Nat}

/-- The lists of the ready queues. -/
def ReadyQueues (state : Sched) (contents : Nat → List Nat) : Prop :=
  ∀ level < state.numOfReadyQueues,
    Represents state.links (state.queue (.ready level)) (contents level)

/-- All ready environments, level by level. -/
def allReady (state : Sched) (contents : Nat → List Nat) : List Nat :=
  (List.range state.numOfReadyQueues).flatMap contents

/-- The state in which `sched_init_RR` sets the quantum of the timer. -/
def beforeTimer (quantum : Nat) (state : Sched) : Sched :=
  { state with
    schedulerStatus := .stopped
    schedulerMethod := .rr
    numOfReadyQueues := 1
    envReadyQueues := state.freshQueues 0
    freshQueues := fun array => state.freshQueues (array + 1)
    quantums := Function.update state.quantums 0 quantum }

/-- The method and the ready queues are in use as before. -/
structure Untouched (state after : Sched) : Prop where
  method : after.schedulerMethod = state.schedulerMethod
  levels : after.numOfReadyQueues = state.numOfReadyQueues
  links : after.links = state.links
  queues : ∀ level < state.numOfReadyQueues,
    (after.envReadyQueues level).first = (state.envReadyQueues level).first ∧
    (after.envReadyQueues level).last = (state.envReadyQueues level).last ∧
    (after.envReadyQueues level).size = (state.envReadyQueues level).size
  quantums : ∀ level < state.numOfReadyQueues, after.quantums level = state.quantums level

/-- One queue with everything that was ready. -/
structure Switched (state : Sched) (contents : Nat → List Nat) (quantum : Nat)
    (after : Sched) : Prop where
  method : after.schedulerMethod = .rr
  levels : after.numOfReadyQueues = 1
  queue : Represents after.links (after.queue (.ready 0)) (allReady state contents)
  quantum : after.quantums 0 = quantum

/-- The switch completes, or the timer refuses the quantum and nothing has happened yet. -/
structure Atomic (state : Sched) (contents : Nat → List Nat) (quantum : Nat) : Prop where
  completes : ∀ after, schedInitRR quantum state = .ok ((), after) →
    Switched state contents quantum after
  refuses : ∀ ending, kclockSetQuantum quantum (beforeTimer quantum state) = .error ending →
    Untouched state (beforeTimer quantum state)
  ends : ∀ ending, schedInitRR quantum state = .error ending →
    kclockSetQuantum quantum (beforeTimer quantum state) = .error ending

/-- Before the call there was one queue under round robin, with the quantum zero and with
what the new array happens to hold. -/
structure SameByChance (state : Sched) : Prop where
  method : state.schedulerMethod = .rr
  levels : state.numOfReadyQueues = 1
  quantum : state.quantums 0 = 0
  first : (state.freshQueues 0 0).first = (state.envReadyQueues 0).first
  last : (state.freshQueues 0 0).last = (state.envReadyQueues 0).last
  size : (state.freshQueues 0 0).size = (state.envReadyQueues 0).size

theorem schedInitRR_eq (quantum : Nat) (state : Sched) :
    schedInitRR quantum state =
      (do kclockSetQuantum quantum; modify (Sched.initQueue (.ready 0)))
        (beforeTimer quantum state) :=
  rfl

theorem schedInitRR_zero (state : Sched) :
    schedInitRR 0 state = .error (.failed .divideError) := rfl

theorem beforeTimer_quantum (quantum : Nat) (state : Sched) :
    (beforeTimer quantum state).quantums 0 = quantum :=
  show Function.update state.quantums 0 quantum 0 = quantum from Function.update_self _ _ _

theorem schedInitRR_positive (positive : quantum ≠ 0) (state : Sched) :
    ∃ after, schedInitRR quantum state = .ok ((), after) ∧ after.schedulerMethod = .rr ∧
      after.numOfReadyQueues = 1 ∧ after.quantums 0 = quantum ∧
      Represents after.links (after.queue (.ready 0)) [] := by
  rw [schedInitRR_eq, kclockSetQuantum, if_neg positive]
  exact ⟨_, rfl, rfl, rfl, beforeTimer_quantum quantum state,
    represents_nil.mpr ⟨rfl, rfl, rfl⟩⟩

theorem allReady_nil (queues : ReadyQueues state contents) :
    allReady state contents = [] ↔
      ∀ level < state.numOfReadyQueues, state.queueSize (.ready level) = 0 := by
  simp only [allReady, List.flatMap_eq_nil_iff, List.mem_range]
  refine forall₂_congr fun level bound => ?_
  have size : state.queueSize (.ready level) = (contents level).length := (queues level bound).size
  rw [size, List.length_eq_zero_iff]

theorem represents_of_empty {links : Nat → Link Nat} {head : ListHead Nat} {values : List Nat}
    (empty : Represents links head []) (represents : Represents links head values) :
    values = [] := by
  have size := represents.size
  rw [empty.size] at size
  exact List.length_eq_zero_iff.mp size.symm

theorem untouched_iff :
    Untouched state (beforeTimer 0 state) ↔ SameByChance state := by
  constructor
  · intro untouched
    have levels : state.numOfReadyQueues = 1 := untouched.levels.symm
    have queue := untouched.queues 0 (by omega)
    have quantum := untouched.quantums 0 (by omega)
    rw [beforeTimer_quantum] at quantum
    exact ⟨untouched.method.symm, levels, quantum.symm, queue.1, queue.2.1, queue.2.2⟩
  · intro same
    refine ⟨same.method.symm, same.levels.symm, rfl, ?_, ?_⟩
    · intro level bound
      rw [same.levels, Nat.lt_one_iff] at bound
      rw [bound]
      exact ⟨same.first, same.last, same.size⟩
    · intro level bound
      rw [same.levels, Nat.lt_one_iff] at bound
      rw [bound, same.quantum]
      exact beforeTimer_quantum 0 state

def sampleReady (waiting : Option Nat) : Sched :=
  let empty : Sched :=
    { toEnvTable := EnvTable.zero
      envNewQueue := ⟨none, none, none, 0⟩
      envExitQueue := ⟨none, none, none, 0⟩
      envReadyQueues := fun _ => ⟨none, none, none, 0⟩
      numOfReadyQueues := 1
      quantums := fun _ => clockIntervalInMs
      schedulerMethod := .rr
      schedulerStatus := .started
      quantumWrites := []
      latch := fun _ => 0
      freshQueues := fun _ _ => ⟨none, none, none, 0⟩
      chkstatus := 0
      pe := none
      ne := none
      pl := 0
      nl := 0 }
  empty.enqueue (.ready 0) waiting

end FosKernel.RoundRobinSwitch
