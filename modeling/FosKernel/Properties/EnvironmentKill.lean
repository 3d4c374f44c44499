import FosKernel.Properties.EnvironmentExit

/-! # The killing of an environment

`sched_kill_env` looks for the environment in the new, the ready and the exit queues and
at the processor. Of `start_env_free` only its effect on the slot is fixed.
-/

namespace FosKernel.EnvironmentKill

open LinkedList EnvironmentExit

section Kill

variable {state after : Sched} {contents taken : QueueName → List Nat} {name : QueueName}
variable {env level : Nat} {envId : BitVec 32} {fosScheduler : Scheduling Unit}
variable {startEnvFree : Nat → Scheduling Unit} {raised : Ending → Prop}

/-- The slot is cleared; of the lists only the one of free slots may have changed. -/
structure Released (before after : Sched) (contents : QueueName → List Nat) (env : Nat) :
    Prop where
  holds : ∃ free, after.Holds (Known before.numOfReadyQueues)
    (Function.update contents .free free)
  scratch : ∀ name, (after.queue name).ptrNext = (before.queue name).ptrNext
  curenv : after.curenv = before.curenv
  levels : after.numOfReadyQueues = before.numOfReadyQueues
  envId : after.envId = Function.update before.envId env 0

/-- `start_env_free` releases every environment that is in no list. -/
def Releases (startEnvFree : Nat → Scheduling Unit) : Prop :=
  ∀ before contents env, before.Holds (Known before.numOfReadyQueues) contents →
    (∀ name, Known before.numOfReadyQueues name → ∀ slot ∈ contents name, slot < nenv) →
    (∀ name, Known before.numOfReadyQueues name → env ∉ contents name) →
    ∃ after, startEnvFree env before = .ok ((), after) ∧ Released before after contents env

/-- The environment was taken out of its place and then released. -/
def Killed (startEnvFree : Nat → Scheduling Unit) (state released : Sched)
    (taken : QueueName → List Nat) (env : Nat) : Prop :=
  ∃ middle, Removed state middle taken env ∧ startEnvFree env middle = .ok ((), released) ∧
    Released middle released taken env

/-- `sched_kill_env` releases the environment, wherever it is, and no other, whatever the
scheduler that it calls at its end. -/
structure KillsOne (startEnvFree : Nat → Scheduling Unit) (state : Sched)
    (contents : QueueName → List Nat) (env : Nat) : Prop where
  queued : ∀ fosScheduler name, name ≠ .free → Known state.numOfReadyQueues name →
    env ∈ contents name → ∃ released next,
      Killed startEnvFree state released (without contents name env) env ∧
        schedKillEnv fosScheduler startEnvFree (state.envId env) state =
          .ok ((), released.setPtrNext name next)
  running : ∀ fosScheduler, state.curenv = some env → ∃ released,
    Killed startEnvFree state released contents env ∧
      schedKillEnv fosScheduler startEnvFree (state.envId env) state =
        fosScheduler (released.setCurenv none)

/-! ## The release -/

theorem Killed.ofRemoved (releases : Releases startEnvFree)
    (removed : Removed state after taken env)
    (slots : ∀ name, Known state.numOfReadyQueues name → ∀ slot ∈ taken name, slot < nenv)
    (fresh : ∀ name, Known state.numOfReadyQueues name → env ∉ taken name) :
    ∃ released, startEnvFree env after = .ok ((), released) ∧
      Killed startEnvFree state released taken env ∧ Released after released taken env := by
  have holds := removed.holds
  rw [← removed.levels] at holds slots fresh
  rcases releases after taken env holds slots fresh with ⟨released, returned, done⟩
  exact ⟨released, returned, ⟨after, removed, returned, done⟩, done⟩

theorem without_slots (queues : Queues state contents) (name : QueueName) (env : Nat) :
    ∀ other, Known state.numOfReadyQueues other →
      ∀ slot ∈ without contents name env other, slot < nenv := by
  intro other known slot member
  by_cases same : other = name
  · subst same
    rw [without, Function.update_self] at member
    exact queues.slots other known slot (List.mem_of_mem_erase member)
  · rw [without, Function.update_of_ne same] at member
    exact queues.slots other known slot member

theorem Killed.curenv {released : Sched} (killed : Killed startEnvFree state released taken env) :
    released.curenv = state.curenv := by
  rcases killed with ⟨middle, removed, -, done⟩
  exact done.curenv.trans removed.curenv

theorem Killed.ids {released : Sched} (killed : Killed startEnvFree state released taken env)
    {other : Nat} (different : other ≠ env) : released.envId other = state.envId other := by
  rcases killed with ⟨middle, removed, -, done⟩
  rw [done.envId, Function.update_of_ne different, removed.envId]

theorem Killed.afterScan {middle released : Sched}
    (killed : Killed startEnvFree middle released taken env)
    (scanned : Sched.Scanned state middle) : Killed startEnvFree state released taken env := by
  rcases killed with ⟨between, removed, returned, done⟩
  exact ⟨between, removed.afterScan scanned, returned, done⟩

/-! ## The searches -/

/-- What the loop over a queue does at the environment, after which it may go on. -/
theorem take_released (queues : Queues state contents) (releases : Releases startEnvFree)
    (known : Known state.numOfReadyQueues name) (notFree : name ≠ .free)
    (member : env ∈ contents name) {next : Option Nat} {taken : Sched}
    (removed : Removed state taken (without contents name env) env)
    (scratch : (taken.queue name).ptrNext = next) :
    Ensures (startEnvFree env) taken (fun _ released =>
      Represents released.links (released.queue name) ((contents name).erase env) ∧
        (released.queue name).ptrNext = next ∧
        (∀ other ∈ (contents name).erase env, released.envId other = state.envId other) ∧
        Killed startEnvFree state released (without contents name env) env) raised := by
  have nodup := (queues.holds.represents name known).nodup
  rcases Killed.ofRemoved releases removed (without_slots queues name env)
    (without_fresh queues known member) with ⟨released, returned, killed, done⟩
  rcases done.holds with ⟨free, holds⟩
  rw [removed.levels] at holds
  have left := holds.represents name known
  rw [Function.update_of_ne notFree, without, Function.update_self] at left
  refine Ensures.ofOk returned ⟨left, (done.scratch name).trans scratch, ?_, killed⟩
  intro other inErased
  refine Killed.ids killed ?_
  rintro rfl
  exact nodup.not_mem_erase inErased

/-- A loop over the new or the exit queue. -/
theorem killFrom_found (queues : Queues state contents) (releases : Releases startEnvFree)
    (known : Known state.numOfReadyQueues name) (notFree : name ≠ .free)
    (member : env ∈ contents name) {take : Nat → Sched → Sched}
    (takes : ∀ next, Removed state (take env (state.setPtrNext name next))
      (without contents name env) env ∧
        ((take env (state.setPtrNext name next)).queue name).ptrNext = next) :
    Ensures (foreachEnv name false fun found other => do
      let current ← get
      if current.envId other = state.envId env then
        modify (take other)
        startEnvFree other
        return .yield true
      else return .yield found) state
      (fun pair after => pair = (none, true) ∧ ∃ released next,
        Killed startEnvFree state released (without contents name env) env ∧
          after = released.setPtrNext name next) raised := by
  have acts : ∀ next, Ensures (do
      modify (take env)
      startEnvFree env) (state.setPtrNext name next) _ raised := fun next =>
    Ensures.bind_modify
      (take_released queues releases known notFree member (takes next).1 (takes next).2)
  exact search_continues (queues.holds.represents name known) (queues.few known) member rfl
    (queues.unique known notFree (Queues.live known notFree member)) acts

theorem killFromNew_found (queues : Queues state contents) (releases : Releases startEnvFree)
    (member : env ∈ contents .new) :
    Ensures (killFromNew startEnvFree (state.envId env)) state
      (fun pair after => pair = (none, true) ∧ ∃ released next,
        Killed startEnvFree state released (without contents .new env) env ∧
          after = released.setPtrNext .new next) raised := by
  have known : Known state.numOfReadyQueues .new := trivial
  exact killFrom_found queues releases known (by simp) member fun next =>
    ⟨(removeFromQueue_removed queues known member .new next).setEnvStatus .unknown,
      removeFromQueue_ptrNext queues known member next⟩

theorem killFromExit_found (queues : Queues state contents) (releases : Releases startEnvFree)
    (member : env ∈ contents .exit) :
    Ensures (killFromExit startEnvFree (state.envId env)) state
      (fun pair after => pair = (none, true) ∧ ∃ released next,
        Killed startEnvFree state released (without contents .exit env) env ∧
          after = released.setPtrNext .exit next) raised := by
  have known : Known state.numOfReadyQueues .exit := trivial
  exact killFrom_found queues releases known (by simp) member fun next =>
    ⟨(removeFromQueue_removed queues known member .exit next).setEnvStatus .unknown,
      removeFromQueue_ptrNext queues known member next⟩

theorem killFromNew_absent (queues : Queues state contents)
    (absent : ∀ other ∈ contents .new, state.envId other ≠ envId) :
    Ensures (killFromNew startEnvFree envId) state
      (fun pair after => pair = (none, false) ∧ Sched.Scanned state after) raised := by
  apply search_skips (queues.holds.represents .new trivial) (queues.few trivial) absent
  exact fun other current different => congrFun (if_neg different) _

theorem killFromExit_absent (queues : Queues state contents)
    (absent : ∀ other ∈ contents .exit, state.envId other ≠ envId) :
    Ensures (killFromExit startEnvFree envId) state
      (fun pair after => pair = (none, false) ∧ Sched.Scanned state after) raised := by
  apply search_skips (queues.holds.represents .exit trivial) (queues.few trivial) absent
  exact fun other current different => congrFun (if_neg different) _

theorem killFromLevel_absent (queues : Queues state contents)
    (bound : level < state.numOfReadyQueues)
    (absent : ∀ other ∈ contents (.ready level), state.envId other ≠ envId) :
    Ensures (killFromLevel startEnvFree envId level) state
      (fun pair after => pair = (none, false) ∧ Sched.Scanned state after) raised := by
  apply level_skips (queues.holds.represents (.ready level) bound) (queues.few bound) absent
  exact fun other current different => congrFun (if_neg different) _

theorem killFromLevel_found (queues : Queues state contents) (releases : Releases startEnvFree)
    (bound : level < state.numOfReadyQueues) (member : env ∈ contents (.ready level)) :
    Ensures (killFromLevel startEnvFree (state.envId env) level) state (fun pair after =>
      pair = (some env, true) ∧
        Killed startEnvFree state after (without contents (.ready level) env) env) raised := by
  have known : Known state.numOfReadyQueues (.ready level) := bound
  have notFree : QueueName.ready level ≠ .free := by simp
  have represents := queues.holds.represents (.ready level) known
  have filled : (state.queue (.ready level)).first ≠ none := represents.filled member
  refine Ensures.bind_get (Ensures.ite (fun _ => ?_) fun empty => absurd filled empty)
  have acts : ∀ next, Ensures (do
      modify (Sched.removeFromQueue (.ready level) env)
      startEnvFree env) (state.setPtrNext (.ready level) next) (fun _ released =>
        Killed startEnvFree state released (without contents (.ready level) env) env) raised := by
    intro next
    refine Ensures.bind_modify ((take_released queues releases known notFree member
      (removeFromQueue_removed queues known member (.ready level) next)
      (removeFromQueue_ptrNext queues known member next)).mono ?_ fun _ holds => holds)
    exact fun _ released holds => holds.2.2.2
  exact search_stops represents (queues.few known) member rfl
    (queues.unique known notFree (Queues.live known notFree member)) acts

theorem killFromReady_found {levels : List Nat} (queues : Queues state contents)
    (releases : Releases startEnvFree)
    (known : ∀ other ∈ levels, other < state.numOfReadyQueues) (isLevel : level ∈ levels)
    (member : env ∈ contents (.ready level)) :
    Ensures (killFromReady startEnvFree (state.envId env) levels) state (fun pair after =>
      pair = (some env, true) ∧
        Killed startEnvFree state after (without contents (.ready level) env) env) raised := by
  apply queues.found_somewhere (fun _ _ => rfl) known isLevel member
  · exact fun current other queues bound absent => killFromLevel_absent queues bound absent
  · intro current scanned inCurrent same
    rw [← same]
    refine (killFromLevel_found (queues.scanned scanned) releases inCurrent member).mono ?_
      fun _ holds => holds
    exact fun pair after holds => ⟨holds.1, holds.2.afterScan scanned⟩

theorem killFromReady_absent {levels : List Nat} (queues : Queues state contents)
    (known : ∀ other ∈ levels, other < state.numOfReadyQueues)
    (absent : ∀ level ∈ levels, ∀ other ∈ contents (.ready level), state.envId other ≠ envId) :
    Ensures (killFromReady startEnvFree envId levels) state
      (fun pair after => pair = (none, false) ∧ Sched.Scanned state after) raised :=
  queues.absent_everywhere rfl (fun _ _ => rfl) known absent
    fun _ _ queues bound absent => killFromLevel_absent queues bound absent

/-! ## The whole search -/

/-- An environment in a queue is released from there. -/
theorem searchAndKill_queued (queues : Queues state contents) (releases : Releases startEnvFree)
    (notFree : name ≠ .free) (known : Known state.numOfReadyQueues name)
    (member : env ∈ contents name) :
    Ensures (searchAndKill fosScheduler startEnvFree (state.envId env)) state
      (fun _ after => ∃ released next,
        Killed startEnvFree state released (without contents name env) env ∧
          after = released.setPtrNext name next) raised := by
  have isLive := Queues.live known notFree member
  have isNew : Known state.numOfReadyQueues .new := trivial
  have isExit : Known state.numOfReadyQueues .exit := trivial
  by_cases inNew : name = .new
  · subst inNew
    refine Ensures.bind (killFromNew_found queues releases member) ?_
    rintro pair after ⟨rfl, holds⟩
    exact Ensures.pure holds
  refine Ensures.bind (killFromNew_absent queues (queues.absent isNew (by simp) isLive
    (queues.elsewhere known isNew inNew member))) ?_
  rintro pair middle ⟨rfl, scanned⟩
  have kept := scanned.kept
  have levels : ∀ other ∈ List.range middle.numOfReadyQueues, other < middle.numOfReadyQueues :=
    fun other => List.mem_range.mp
  refine Ensures.bind_get ?_
  cases name with
  | free => exact absurd rfl notFree
  | new => exact absurd rfl inNew
  | ready level =>
      have bound : level < middle.numOfReadyQueues := by
        rw [kept.numOfReadyQueues]
        exact known
      rw [← kept.envId]
      refine Ensures.bind (killFromReady_found (queues.scanned scanned) releases levels
        (List.mem_range.mpr bound) member) ?_
      rintro pair released ⟨rfl, killed⟩
      exact Ensures.pure ⟨released, _, killed.afterScan scanned,
        (Sched.setPtrNext_self released (.ready level)).symm⟩
  | exit =>
      refine Ensures.bind (killFromReady_absent (queues.scanned scanned) levels ?_) ?_
      · intro level isLevel
        have levelKnown : Known state.numOfReadyQueues (.ready level) := by
          rw [Known, ← kept.numOfReadyQueues]
          exact levels level isLevel
        rw [kept.envId]
        exact queues.absent levelKnown (by simp) isLive
          (queues.elsewhere known levelKnown (by simp) member)
      rintro pair later ⟨rfl, further⟩
      have both := scanned.trans further
      rw [← both.kept.envId]
      refine Ensures.bind (killFromExit_found (queues.scanned both) releases member) ?_
      rintro pair after ⟨rfl, released, next, killed, rfl⟩
      exact Ensures.pure ⟨released, next, killed.afterScan both, rfl⟩

/-- For the running environment all loops find nothing. -/
theorem searchAndKill_running (queues : Queues state contents) (running : state.curenv = some env)
    {result : Unit → Sched → Prop}
    (last : ∀ middle, Sched.Scanned state middle →
      Ensures (killRunning fosScheduler startEnvFree (state.envId env)) middle result raised) :
    Ensures (searchAndKill fosScheduler startEnvFree (state.envId env)) state result raised := by
  have isLive : Live state contents env := .inl running
  have absent : ∀ name, Known state.numOfReadyQueues name → name ≠ .free →
      ∀ other ∈ contents name, state.envId other ≠ state.envId env := fun name known notFree =>
    queues.absent known notFree isLive (queues.outside env running name known)
  refine Ensures.bind (killFromNew_absent queues (absent .new trivial (by simp))) ?_
  rintro pair middle ⟨rfl, scanned⟩
  have kept := scanned.kept
  refine Ensures.bind_get (Ensures.bind (killFromReady_absent (queues.scanned scanned)
    (fun other => List.mem_range.mp) ?_) ?_)
  · intro level isLevel
    rw [kept.envId]
    rw [kept.numOfReadyQueues, List.mem_range] at isLevel
    exact absent (.ready level) isLevel (by simp)
  rintro pair later ⟨rfl, further⟩
  have both := scanned.trans further
  refine Ensures.bind (killFromExit_absent (queues.scanned both) ?_) ?_
  · rw [both.kept.envId]
    exact absent .exit trivial (by simp)
  rintro pair after ⟨rfl, again⟩
  exact last after (both.trans again)

/-! ## The end of the call -/

theorem schedKillEnv_queued (queues : Queues state contents) (releases : Releases startEnvFree)
    {current : Nat} (running : state.curenv = some current) (notFree : name ≠ .free)
    (known : Known state.numOfReadyQueues name) (member : env ∈ contents name) :
    Ensures (schedKillEnv fosScheduler startEnvFree (state.envId env)) state
      (fun _ after => ∃ released next,
        Killed startEnvFree state released (without contents name env) env ∧
          after = released.setPtrNext name next) raised := by
  have different : current ≠ env := by
    rintro rfl
    exact queues.outside current running name known member
  refine Ensures.bind (searchAndKill_queued queues releases notFree known member) ?_
  rintro _ _ ⟨released, next, killed, rfl⟩
  have kept := Sched.setPtrNext_kept released name next
  refine Ensures.bind (curenvId_some (kept.curenv.trans (killed.curenv.trans running))) ?_
  rintro found after ⟨rfl, rfl⟩
  refine Ensures.ite (fun same => ?_) fun _ => Ensures.pure ⟨released, next, killed, rfl⟩
  rw [kept.envId, killed.ids different] at same
  exact absurd (queues.ids current env (.inl running) (Queues.live known notFree member) same)
    different

/-- With nothing running the call ends at the null pointer. -/
theorem schedKillEnv_null (queues : Queues state contents) (releases : Releases startEnvFree)
    (idle : state.curenv = none) (notFree : name ≠ .free)
    (known : Known state.numOfReadyQueues name) (member : env ∈ contents name) :
    Ensures (schedKillEnv fosScheduler startEnvFree (state.envId env)) state
      (fun _ _ => False) (· = .failed .badPointer) := by
  refine Ensures.bind (searchAndKill_queued queues releases notFree known member) ?_
  rintro _ _ ⟨released, next, killed, rfl⟩
  have noCurrent : (released.setPtrNext name next).curenv = none :=
    (Sched.setPtrNext_kept released name next).curenv.trans (killed.curenv.trans idle)
  exact Ensures.bind (curenvId_none noCurrent) fun _ _ impossible => impossible.elim

/-- The kernel goes on although the environment is not released: it is still running or it
has come into the exit queue. -/
def NotReleased (contents : QueueName → List Nat) (env : Nat) (ending : Ending) : Prop :=
  ∃ after, ending = .switched after ∧
    (after.curenv = some env ∨ (after.queue .exit).size = (contents .exit).length + 1)

theorem panic_notReleased (queues : Queues state contents) (running : state.curenv = some env) :
    Ensures (panic switch) state (fun _ _ => False) (NotReleased contents env) := by
  have goesOn : Ensures switch state (fun _ _ => False) (NotReleased contents env) :=
    Ensures.ofError rfl ⟨state, rfl, .inl running⟩
  refine Ensures.bind_get ?_
  rw [running]
  refine Ensures.ite (fun _ => ?_) fun _ => goesOn
  have exits : ∃ after, schedExitEnv switch (state.envId env) state = switch after ∧
      Exited state after contents env ∧ after.curenv = none := schedExitEnv_running queues running
  rcases exits with ⟨after, stopped, exited, -⟩
  have size := (exited.holds.represents .exit trivial).size
  rw [Function.update_self, List.length_cons] at size
  have exit : Ensures (envExit switch) state (fun _ _ => False) (NotReleased contents env) := by
    refine Ensures.bind (curenvId_some running) ?_
    rintro found current ⟨rfl, rfl⟩
    exact Ensures.bind (Ensures.ofError stopped ⟨after, rfl, .inr size⟩)
      fun _ _ impossible => (impossible : False).elim
  exact Ensures.bind exit fun _ _ impossible => impossible.elim

/-- The running environment is not released before the scheduler goes on. -/
theorem schedKillEnv_running (queues : Queues state contents) (releases : Releases startEnvFree)
    (running : state.curenv = some env) :
    Ensures (schedKillEnv switch startEnvFree (state.envId env)) state (fun _ _ => True)
      (NotReleased contents env) := by
  have search : Ensures (searchAndKill switch startEnvFree (state.envId env)) state
      (fun _ after => state.envId env = envRunnable ∧ after.curenv = some env ∧
        after.envId env = 0) (NotReleased contents env) := by
    refine searchAndKill_running queues running fun middle scanned => ?_
    have scannedQueues := queues.scanned scanned
    have current : middle.curenv = some env := scanned.kept.curenv.trans running
    refine Ensures.bind (curenvId_some current) ?_
    rintro found after ⟨rfl, rfl⟩
    refine Ensures.ite (fun _ => ?_) fun different => ?_
    · refine Ensures.bind_get ?_
      rw [current]
      have asserted : Ensures (assertRunnable switch env) after
          (fun _ final => final = after ∧ state.envId env = envRunnable)
          (NotReleased contents env) := by
        refine Ensures.bind_get (Ensures.ite (fun equal => ?_) fun _ => ?_)
        · rw [scanned.kept.envId] at equal
          exact Ensures.pure ⟨rfl, equal⟩
        · exact (panic_notReleased scannedQueues current).mono
            (fun _ _ impossible => impossible.elim) fun _ holds => holds
      refine Ensures.bind asserted ?_
      rintro _ _ ⟨rfl, equal⟩
      rcases Killed.ofRemoved releases (Removed.ofScanned queues scanned env) queues.slots
        (queues.outside env running) with ⟨released, returned, killed, done⟩
      refine Ensures.ofOk returned ⟨equal, killed.curenv.trans running, ?_⟩
      rw [done.envId, Function.update_self]
    · rw [scanned.kept.envId] at different
      exact absurd rfl different
  refine Ensures.bind search ?_
  rintro _ after ⟨equal, current, cleared⟩
  refine Ensures.bind (curenvId_some current) ?_
  rintro found final ⟨rfl, rfl⟩
  refine Ensures.ite (fun same => ?_) fun _ => Ensures.pure trivial
  rw [cleared, equal] at same
  exact absurd same (by decide)

/-! ## What the call does -/

theorem KillsOne.not_running (queues : Queues state contents) (releases : Releases startEnvFree)
    (kills : KillsOne startEnvFree state contents env) : state.curenv ≠ some env := by
  intro running
  rcases kills.running switch running with ⟨released, ⟨middle, removed, -, done⟩, outcome⟩
  rcases (schedKillEnv_running queues releases running).of_error outcome with
    ⟨after, same, still | size⟩
  · injection same with same
    rw [← same] at still
    cases still
  · injection same with same
    rw [← same] at size
    rcases done.holds with ⟨free, holds⟩
    rw [removed.levels] at holds
    have exited := (holds.represents .exit trivial).size
    rw [Function.update_of_ne (by simp)] at exited
    exact absurd (exited.symm.trans size) (by omega)

theorem KillsOne.not_idle (queues : Queues state contents) (releases : Releases startEnvFree)
    (isLive : Live state contents env) (kills : KillsOne startEnvFree state contents env) :
    state.curenv ≠ none := by
  intro idle
  rcases isLive with running | ⟨name, notFree, known, member⟩
  · rw [idle] at running
    cases running
  · rcases kills.queued switch name notFree known member with ⟨released, next, -, returned⟩
    exact (schedKillEnv_null queues releases idle notFree known member).of_ok returned

/-- `sched_kill_env` kills exactly the named environment if and only if another one runs. -/
theorem kills_one_iff (queues : Queues state contents) (releases : Releases startEnvFree)
    (isLive : Live state contents env) :
    KillsOne startEnvFree state contents env ↔
      ∃ current, state.curenv = some current ∧ current ≠ env := by
  constructor
  · intro kills
    have running := kills.not_idle queues releases isLive
    rcases Option.ne_none_iff_exists'.mp running with ⟨current, isCurrent⟩
    refine ⟨current, isCurrent, ?_⟩
    rintro rfl
    exact kills.not_running queues releases isCurrent
  · rintro ⟨current, running, different⟩
    constructor
    · intro fosScheduler name notFree known member
      rcases (schedKillEnv_queued queues releases running notFree known member).returns with
        ⟨_, after, returned, released, next, killed, rfl⟩
      exact ⟨released, next, killed, returned⟩
    · intro fosScheduler same
      rw [running, Option.some.injEq] at same
      exact absurd same different

end Kill

/-! ## Two environments -/

/-- A release that does no more than `free_environment`. -/
def freeSlot (env : Nat) : Scheduling Unit :=
  modify fun state => { state with toEnvTable := state.toEnvTable.freeEnvironment env }

theorem listInsertHead_ptrNext (list : ListState Nat) (env : Nat) :
    (listInsertHead list env).head.ptrNext = list.head.ptrNext := by
  rcases list with ⟨links, ⟨first, last, scratch, size⟩⟩
  cases first <;> rfl

theorem freeSlot_releases : Releases freeSlot := by
  intro before contents env holds slots fresh
  have isFree : Known before.numOfReadyQueues .free := trivial
  have few := slots_few (holds.represents .free isFree).nodup (slots .free isFree)
  have small : nenv + 1 < 2 ^ 32 := by decide
  let cleared : Sched :=
    { before with
      links := Function.update before.links env Link.null
      envId := Function.update before.envId env 0
      envParentId := Function.update before.envParentId env 0
      envStatus := Function.update before.envStatus env .free }
  have clearedHolds : cleared.Holds (Known before.numOfReadyQueues) contents := by
    refine ⟨fun name known => ?_, holds.apart⟩
    have represents := holds.represents name known
    refine (represents.congr fun value member => ?_ :
      Represents cleared.links (before.queue name) (contents name))
    have different : value ≠ env := fun equal => fresh name known (equal ▸ member)
    exact Function.update_of_ne different _ _
  have freed := clearedHolds.enqueue isFree (some env)
    (by
      rintro value ⟨⟩
      exact fresh) (by omega)
  have kept := Sched.enqueue_kept cleared .free (some env)
  have scratch : ∀ name, ((cleared.enqueue .free (some env)).queue name).ptrNext =
      (before.queue name).ptrNext := by
    intro name
    rw [Sched.enqueue, Sched.queue_withList]
    by_cases same : name = .free
    · subst same
      rw [Function.update_self]
      exact listInsertHead_ptrNext _ env
    · rw [Function.update_of_ne same]
      cases name <;> rfl
  exact ⟨cleared.enqueue .free (some env), rfl, ⟨_, freed⟩, scratch, kept.curenv,
    kept.numOfReadyQueues, kept.envId⟩

theorem kills_from_ready_queue :
    KillsOne freeSlot (sampleSched (.ready 0)) (sampleQueued (.ready 0)) 1 := by
  have searched : Searched 1 (.ready 0) := Nat.zero_lt_one
  have member : 1 ∈ sampleQueued (.ready 0) (.ready 0) := List.mem_singleton_self 1
  exact (kills_one_iff (sample_queues searched) freeSlot_releases
    (.inr ⟨.ready 0, by simp, searched, member⟩)).mpr ⟨0, rfl, by decide⟩

/-- The check of the running environment compares its id with a status. -/
theorem kill_keeps_running_environment :
    Queues (sampleSched (.ready 0)) (sampleQueued (.ready 0)) ∧
      ¬KillsOne freeSlot (sampleSched (.ready 0)) (sampleQueued (.ready 0)) 0 := by
  have queues : Queues (sampleSched (.ready 0)) (sampleQueued (.ready 0)) :=
    sample_queues Nat.zero_lt_one
  exact ⟨queues, fun kills => kills.not_running queues freeSlot_releases rfl⟩

end FosKernel.EnvironmentKill
