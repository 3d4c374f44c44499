import FosKernel.Foundation.Ensures
import FosKernel.Process.EnvTable

/-! # The scheduler

The queues of `kern/sched.c` with the checker of `kern/utilities.c`. `fos_scheduler`
never returns: it ends in an environment or at the command prompt. Freeing buffered
frames and refreshing time stamps concern memory only and are left out.
-/

namespace FosKernel

open LinkedList

/-- The lists that environments are kept in; all use the links of the environments. -/
inductive QueueName
  | free | new | exit
  | ready (level : Nat)
  deriving DecidableEq

inductive SchedulerMethod
  | rr | mlfq
  deriving DecidableEq

inductive SchedulerStatus
  | stopped | started
  deriving DecidableEq

/-- The variables of the scheduler, of its checker and of the timer. `quantumWrites` are
the quantums given to the timer so far; `latch` and `freshQueues` are what the next
readings of counter 0 and the next arrays from `kmalloc` will hold. -/
structure Sched extends EnvTable where
  envNewQueue : ListHead Nat
  envExitQueue : ListHead Nat
  envReadyQueues : Nat → ListHead Nat
  numOfReadyQueues : Nat
  quantums : Nat → Nat
  schedulerMethod : SchedulerMethod
  schedulerStatus : SchedulerStatus
  quantumWrites : List Nat
  latch : Nat → Nat
  freshQueues : Nat → Nat → ListHead Nat
  chkstatus : Nat
  pe : Option Nat
  ne : Option Nat
  pl : Nat
  nl : Nat

/-- Ways in which the scheduler fails. -/
inductive Fault
  | badPointer
  | divideError
  | endless
  deriving DecidableEq

/-- Ways in which a function of the scheduler does not return: an environment or the
command prompt goes on, or the kernel fails. -/
inductive Ending
  | switched (state : Sched)
  | failed (fault : Fault)

abbrev Scheduling := StateT Sched (Except Ending)

namespace Sched

def queue (state : Sched) : QueueName → ListHead Nat
  | .free => state.envFreeList
  | .new => state.envNewQueue
  | .exit => state.envExitQueue
  | .ready level => state.envReadyQueues level

def setQueue (state : Sched) (name : QueueName) (head : ListHead Nat) : Sched :=
  match name with
  | .free => { state with envFreeList := head }
  | .new => { state with envNewQueue := head }
  | .exit => { state with envExitQueue := head }
  | .ready level =>
      { state with envReadyQueues := Function.update state.envReadyQueues level head }

/-- Let a list macro work on one of the queues. -/
def withList (state : Sched) (name : QueueName)
    (change : ListState Nat → ListState Nat) : Sched :=
  let result := change ⟨state.links, state.queue name⟩
  { state.setQueue name result.head with links := result.links }

def setPtrNext (state : Sched) (name : QueueName) (next : Option Nat) : Sched :=
  state.setQueue name { state.queue name with ptrNext := next }

def setCurenv (curenv : Option Nat) (state : Sched) : Sched := { state with curenv }

def setSchedulerStatus (schedulerStatus : SchedulerStatus) (state : Sched) : Sched :=
  { state with schedulerStatus }

def setEnvStatus (state : Sched) (env : Nat) (status : EnvStatus) : Sched :=
  { state with toEnvTable := state.toEnvTable.setStatus env status }

/-! ## Queues -/

def initQueue (name : QueueName) (state : Sched) : Sched := state.withList name listInit

def queueSize (state : Sched) (name : QueueName) : Nat := (state.queue name).size

def enqueue (name : QueueName) (env : Option Nat) (state : Sched) : Sched :=
  match env with
  | none => state
  | some env => state.withList name (listInsertHead · env)

def removeFromQueue (name : QueueName) (env : Nat) (state : Sched) : Sched :=
  state.withList name (listRemove · env)

/-- `dequeue`, which takes the last element. -/
def dequeue (name : QueueName) (state : Sched) : Option Nat × Sched :=
  match (state.queue name).last with
  | none => (none, state)
  | some env => (some env, state.removeFromQueue name env)

def schedInsertReady (env : Nat) (state : Sched) : Sched :=
  (state.setEnvStatus env .ready).enqueue (.ready 0) (some env)

def schedInsertNew (env : Nat) (state : Sched) : Sched :=
  (state.setEnvStatus env .new).enqueue .new (some env)

def schedRemoveNew (env : Nat) (state : Sched) : Sched :=
  (state.removeFromQueue .new env).setEnvStatus env .unknown

def schedRemoveExit (env : Nat) (state : Sched) : Sched :=
  (state.removeFromQueue .exit env).setEnvStatus env .unknown

def schedInsertExit (env : Option Nat) (state : Sched) : Sched :=
  match env with
  | none => state
  | some env => (state.setEnvStatus env .exit).enqueue .exit (some env)

/-! ## The checker -/

/-- The loop of `schenv` over the ready queues. -/
def firstNonEmpty (state : Sched) : Option (Nat × Option Nat) :=
  (List.range state.numOfReadyQueues).findSome? fun level =>
    if state.queueSize (.ready level) ≠ 0 then some (level, (state.queue (.ready level)).last)
    else none

/-- The level of the running environment once its quantum is over, as `schenv` has it. -/
def demoted (state : Sched) : Nat :=
  if state.pl + 1 < state.numOfReadyQueues then (state.pl + 1) % 256 else state.pl

/-- The level in which `chk2` looks for the environment that ran before. -/
def previousLevel (state : Sched) : Nat :=
  if state.pl + 1 = state.numOfReadyQueues then state.pl else (state.pl + 1) % 256

def schenv (state : Sched) : Sched :=
  let state := match state.firstNonEmpty with
    | none => { state with nl := 0, ne := none }
    | some (level, env) => { state with nl := level % 256, ne := env }
  match state.curenv with
  | none => state
  | some curenv =>
      if state.ne ≠ none then
        if state.pl + 1 < state.nl then { state with ne := some curenv, nl := state.demoted }
        else state
      else { state with ne := some curenv, nl := state.demoted }

def chksch (onoff : Nat) (state : Sched) : Sched :=
  { state with pe := none, ne := none, pl := 0, nl := 0, chkstatus := onoff }

def chk1 (state : Sched) : Sched :=
  if state.chkstatus = 0 then state
  else
    let state := { state with pe := state.curenv, pl := state.nl }
    let state := if state.pe = none then { state with pl := 0 } else state
    state.schenv

end Sched

/-! ## The timer -/

/-- `TIMER_DIV(1000 / quantum)` as a `uint16`. -/
def timerDiv (quantum : Nat) : Nat :=
  let frequency := 1000 / quantum
  (1193182 + frequency / 2) / frequency % 2 ^ 16

/-- `QUANTUM_LIMIT` is 1000, above all values of `uint8`; the division by zero faults. -/
def kclockSetQuantum (quantum : Nat) : Scheduling Unit :=
  if quantum = 0 then throw (.failed .divideError)
  else modify fun state => { state with quantumWrites := state.quantumWrites ++ [quantum] }

def kclockReadCnt0Latch : Scheduling Nat := do
  let state ← get
  modify fun state => { state with latch := fun reading => state.latch (reading + 1) }
  return state.latch 0

/-! ## Traversal -/

/-- `LIST_FOREACH` over a queue with a value carried along: the body says whether the loop
goes on. The result is the loop variable after the loop. A list has at most `NENV`
elements, so that a longer loop does not end. -/
def listForeach (name : QueueName) (body : α → Nat → Scheduling (ForInStep α)) :
    Nat → Option Nat → α → Scheduling (Option Nat × α)
  | 0, _, _ => throw (.failed .endless)
  | fuel + 1, var, carried => do
      modify fun state => state.setPtrNext name (var.bind fun env => (state.links env).next)
      match var with
      | none => return (none, carried)
      | some env =>
          match ← body carried env with
          | .done result => return (some env, result)
          | .yield result =>
              let state ← get
              listForeach name body fuel (state.queue name).ptrNext result

def foreachEnv (name : QueueName) (start : α) (body : α → Nat → Scheduling (ForInStep α)) :
    Scheduling (Option Nat × α) := do
  let state ← get
  listForeach name body (nenv + 1) (state.queue name).first start

def findEnvInQueue (name : QueueName) (envId : BitVec 32) : Scheduling (Option Nat) := do
  let found ← foreachEnv name () fun _ env => do
    let state ← get
    if state.envId env = envId then return .done () else return .yield ()
  return found.1

/-! ## Functions that may switch

They take the scheduler they call, which is defined last. -/

section Switching

variable (fosScheduler : Scheduling Unit)

/-- The loop of `sched_exit_env` over the new queue goes on after a match, so that its
variable is null at the end. -/
def removeFromNew (envId : BitVec 32) : Scheduling (Option Nat × Bool) :=
  foreachEnv .new false fun found env => do
    let state ← get
    if state.envId env = envId then
      modify (Sched.schedRemoveNew env)
      return .yield true
    else return .yield found

def removeFromLevel (envId : BitVec 32) (level : Nat) : Scheduling (Option Nat × Bool) := do
  let state ← get
  if (state.queue (.ready level)).first ≠ none then
    foreachEnv (.ready level) false fun found env => do
      let state ← get
      if state.envId env = envId then
        modify (Sched.removeFromQueue (.ready level) env)
        return .done true
      else return .yield found
  else return (none, false)

/-- The loop of `sched_exit_env` over the ready queues. -/
def removeFromReady (envId : BitVec 32) : List Nat → Scheduling (Option Nat × Bool)
  | [] => return (none, false)
  | level :: levels => do
      let searched ← removeFromLevel envId level
      if searched.2 then return searched
      else removeFromReady envId levels

def curenvId : Scheduling (BitVec 32) := do
  let state ← get
  match state.curenv with
  | none => throw (.failed .badPointer)
  | some env => return state.envId env

/-- The searches of `sched_exit_env` with the value of `ptr_env` after them. -/
def searchAndRemove (envId : BitVec 32) : Scheduling (Option Nat × Bool) := do
  let inNew ← removeFromNew envId
  if inNew.2 then return inNew
  else
    let state ← get
    let inReady ← removeFromReady envId (List.range state.numOfReadyQueues)
    if inReady.2 then return inReady
    else
      let current ← curenvId
      let state ← get
      if current = envId then return (state.curenv, true)
      else return (none, false)

def schedExitEnv (envId : BitVec 32) : Scheduling Unit := do
  let found ← searchAndRemove envId
  if found.2 then
    modify (Sched.schedInsertExit found.1)
    let current ← curenvId
    if current = envId then
      modify (Sched.setCurenv none)
      fosScheduler
    else return ()
  else return ()

def exitLevel (level : Nat) : Scheduling Unit := do
  let state ← get
  if (state.queue (.ready level)).first ≠ none then
    let _ ← foreachEnv (.ready level) () fun _ env => do
      modify (Sched.removeFromQueue (.ready level) env)
      modify (Sched.schedInsertExit (some env))
      return .yield ()
    return ()
  else return ()

def exitLevels : List Nat → Scheduling Unit
  | [] => return ()
  | level :: levels => do
      exitLevel level
      exitLevels levels

def schedExitAllReadyEnvs : Scheduling Unit := do
  let state ← get
  exitLevels (List.range state.numOfReadyQueues)

def envExit : Scheduling Unit := do
  let current ← curenvId
  schedExitEnv fosScheduler current
  fosScheduler

/-- `_panic`. -/
def panic : Scheduling Unit := do
  let state ← get
  match state.curenv with
  | none => fosScheduler
  | some env =>
      if state.envStatus env = .runnable then
        envExit fosScheduler
        fosScheduler
      else fosScheduler

/-- `_panic_all`. -/
def panicAll : Scheduling Unit := do
  schedExitAllReadyEnvs
  let state ← get
  match state.curenv with
  | none => fosScheduler
  | some env =>
      schedExitEnv fosScheduler (state.envId env)
      fosScheduler

def assertEndall (condition : Bool) : Scheduling Unit :=
  if condition then return () else panicAll fosScheduler

/-- The assertions of `chk2` that no ready queue in `levels` has the environment. -/
def assertAbsent (envId : BitVec 32) : List Nat → Scheduling Unit
  | [] => return ()
  | level :: levels => do
      let found ← findEnvInQueue (.ready level) envId
      assertEndall fosScheduler found.isNone
      assertAbsent envId levels

/-- The assertions of `chk2` about the environment that runs next. -/
def chk2Next (ne : Nat) : Scheduling Unit := do
  let state ← get
  if state.quantums state.nl = 0 then throw (.failed .divideError)
  else
    let upper := timerDiv (state.quantums state.nl)
    let lower := 90 * upper / 100
    let current ← kclockReadCnt0Latch
    assertEndall fosScheduler (lower < current && current ≤ upper)
    assertAbsent fosScheduler (state.envId ne) (List.range state.numOfReadyQueues)

/-- The assertions of `chk2` about the environment that ran before. -/
def chk2Previous (pe : Nat) : Scheduling Unit := do
  let state ← get
  let found ← findEnvInQueue (.ready state.previousLevel) (state.envId pe)
  assertEndall fosScheduler found.isSome
  assertAbsent fosScheduler (state.envId pe)
    ((List.range state.numOfReadyQueues).filter (· ≠ state.previousLevel))

def chk2 (se : Option Nat) : Scheduling Unit := do
  let state ← get
  if state.chkstatus = 0 then return ()
  else
    assertEndall fosScheduler (se == state.ne)
    match state.ne with
    | none => pure ()
    | some ne => chk2Next fosScheduler ne
    match state.pe with
    | none => return ()
    | some pe => if some pe = state.ne then return () else chk2Previous fosScheduler pe

/-! Killing takes the release of an environment, `start_env_free`, as well. -/

section Killing

variable (startEnvFree : Nat → Scheduling Unit)

/-- The loop of `sched_kill_env` over the new queue goes on after a match. -/
def killFromNew (envId : BitVec 32) : Scheduling (Option Nat × Bool) :=
  foreachEnv .new false fun found env => do
    let state ← get
    if state.envId env = envId then
      modify (Sched.schedRemoveNew env)
      startEnvFree env
      return .yield true
    else return .yield found

def killFromLevel (envId : BitVec 32) (level : Nat) : Scheduling (Option Nat × Bool) := do
  let state ← get
  if (state.queue (.ready level)).first ≠ none then
    foreachEnv (.ready level) false fun found env => do
      let state ← get
      if state.envId env = envId then
        modify (Sched.removeFromQueue (.ready level) env)
        startEnvFree env
        return .done true
      else return .yield found
  else return (none, false)

/-- The loop of `sched_kill_env` over the ready queues. -/
def killFromReady (envId : BitVec 32) : List Nat → Scheduling (Option Nat × Bool)
  | [] => return (none, false)
  | level :: levels => do
      let searched ← killFromLevel startEnvFree envId level
      if searched.2 then return searched
      else killFromReady envId levels

/-- The loop of `sched_kill_env` over the exit queue goes on after a match, too. -/
def killFromExit (envId : BitVec 32) : Scheduling (Option Nat × Bool) :=
  foreachEnv .exit false fun found env => do
    let state ← get
    if state.envId env = envId then
      modify (Sched.schedRemoveExit env)
      startEnvFree env
      return .yield true
    else return .yield found

/-- The value of `ENV_RUNNABLE`, with which the id is compared. -/
def envRunnable : BitVec 32 := 2

def assertRunnable (env : Nat) : Scheduling Unit := do
  let state ← get
  if state.envId env = envRunnable then return () else panic fosScheduler

def killRunning (envId : BitVec 32) : Scheduling Unit := do
  let current ← curenvId
  if current = envId then
    let state ← get
    match state.curenv with
    | none => throw (.failed .badPointer)
    | some env =>
        assertRunnable fosScheduler env
        startEnvFree env
  else return ()

/-- The searches of `sched_kill_env`. -/
def searchAndKill (envId : BitVec 32) : Scheduling Unit := do
  let inNew ← killFromNew startEnvFree envId
  if inNew.2 then return ()
  else
    let state ← get
    let inReady ← killFromReady startEnvFree envId (List.range state.numOfReadyQueues)
    if inReady.2 then return ()
    else
      let inExit ← killFromExit startEnvFree envId
      if inExit.2 then return ()
      else killRunning fosScheduler startEnvFree envId

def schedKillEnv (envId : BitVec 32) : Scheduling Unit := do
  searchAndKill fosScheduler startEnvFree envId
  let current ← curenvId
  if current = envId then
    modify (Sched.setCurenv none)
    fosScheduler
  else return ()

end Killing

end Switching

/-! ## Selection -/

/-- The part of `fos_scheduler` for `SCH_RR`. -/
def selectRR : Scheduling (Option Nat) := do
  modify fun state => state.enqueue (.ready 0) state.curenv
  let state ← get
  let (next, state) := state.dequeue (.ready 0)
  set state
  kclockSetQuantum (state.quantums 0)
  return next

/-- The loop of `fos_scheduler_MLFQ`: an empty queue makes it skip the next level, and its
counter is a `uint8`. -/
def scanLevels : Nat → Nat → Scheduling (Option Nat)
  | 0, _ => throw (.failed .endless)
  | fuel + 1, level => do
      let state ← get
      if level < state.numOfReadyQueues then
        if state.queueSize (.ready level) ≠ 0 then
          let (next, state) := state.dequeue (.ready level)
          set state
          match next with
          | some env => return some env
          | none => scanLevels fuel ((level + 1) % 256)
        else scanLevels fuel ((level + 2) % 256)
      else return none

/-- `fos_scheduler_MLFQ` works on a new array of queues each time. -/
def fosSchedulerMLFQ : Scheduling (Option Nat) := do
  modify fun state =>
    { state with
      envReadyQueues := state.freshQueues 0
      freshQueues := fun array => state.freshQueues (array + 1) }
  let state ← get
  match state.curenv with
  | none => scanLevels 257 0
  | some _ => return none

/-- The kernel goes on elsewhere. -/
def switch : Scheduling Unit := do
  let state ← get
  throw (.switched state)

/-- `env_run`. -/
def envRun (env : Nat) : Scheduling Unit := do
  modify (Sched.setCurenv (some env))
  modify (Sched.setEnvStatus · env .runnable)
  switch

def selectNext : Scheduling (Option Nat) := do
  let state ← get
  match state.schedulerMethod with
  | .rr => selectRR
  | .mlfq => fosSchedulerMLFQ

/-- The end of `fos_scheduler`: without an environment the command prompt goes on. -/
def dispatch : Option Nat → Scheduling Unit
  | some env => envRun env
  | none => do
      modify (Sched.setCurenv none)
      modify (Sched.setSchedulerStatus .stopped)
      switch

/-- `fos_scheduler`, with a bound on the calls of itself inside failed checks. -/
def fosScheduler : Nat → Scheduling Unit
  | 0 => throw (.failed .endless)
  | depth + 1 => do
      modify Sched.chk1
      modify (Sched.setSchedulerStatus .started)
      let nextEnv ← selectNext
      let state ← get
      modify (Sched.setCurenv nextEnv)
      chk2 (fosScheduler depth) nextEnv
      modify (Sched.setCurenv state.curenv)
      dispatch nextEnv

/-! ## Commands and system calls -/

def schedNewEnv (env : Nat) : Scheduling Unit := modify (Sched.schedInsertNew env)

def schedRunEnv (depth : Nat) (envId : BitVec 32) : Scheduling Unit := do
  let _ ← foreachEnv .new () fun _ env => do
    let state ← get
    if state.envId env = envId then
      modify (Sched.schedRemoveNew env)
      modify (Sched.schedInsertReady env)
      let state ← get
      if state.schedulerStatus = .stopped then
        fosScheduler depth
        return .done ()
      else return .done ()
    else return .yield ()
  return ()

def schedRunAll (depth : Nat) : Scheduling Unit := do
  let _ ← foreachEnv .new () fun _ env => do
    modify (Sched.schedRemoveNew env)
    modify (Sched.schedInsertReady env)
    return .yield ()
  let state ← get
  if state.schedulerStatus = .stopped then fosScheduler depth
  else return ()

/-- `sched_init_RR`, with the old contents of the new array of queues. -/
def schedInitRR (quantum : Nat) : Scheduling Unit := do
  modify fun state =>
    { state with
      schedulerStatus := .stopped
      schedulerMethod := .rr
      numOfReadyQueues := 1
      envReadyQueues := state.freshQueues 0
      freshQueues := fun array => state.freshQueues (array + 1)
      quantums := Function.update state.quantums 0 quantum }
  kclockSetQuantum quantum
  modify (Sched.initQueue (.ready 0))

def clockIntervalInMs : Nat := 10

def schedInit : Scheduling Unit := do
  schedInitRR clockIntervalInMs
  modify (Sched.initQueue .new)
  modify (Sched.initQueue .exit)

end FosKernel
