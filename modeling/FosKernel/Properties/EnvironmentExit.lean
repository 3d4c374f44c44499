import FosKernel.Refinement.EnvironmentQueues

/-! # The exit of an environment

`sched_exit_env` looks for the environment in the new queue, in the ready queues and at
the processor, and puts what its cursor points to into the exit queue.
-/

namespace FosKernel.EnvironmentExit

open LinkedList

section Exit

variable {state after : Sched} {contents taken : QueueName → List Nat} {name : QueueName}
variable {env level : Nat} {envId : BitVec 32} {fosScheduler : Scheduling Unit}

/-- The queues in which `sched_exit_env` searches. -/
def Searched (count : Nat) : QueueName → Prop
  | .new => True
  | .ready level => level < count
  | _ => False

/-- The environment, taken out of the lists before, is in the exit queue. -/
structure Exited (state after : Sched) (taken : QueueName → List Nat) (env : Nat) : Prop where
  holds : after.Holds (Known state.numOfReadyQueues)
    (Function.update taken .exit (env :: taken .exit))
  envId : after.envId = state.envId
  status : after.envStatus env = .exit
  others : ∀ other, other ≠ env → after.envStatus other = state.envStatus other

/-- `sched_exit_env` moves the environment with the id, whatever it is, and nothing else. -/
structure ExitsOne (fosScheduler : Scheduling Unit) (state : Sched)
    (contents : QueueName → List Nat) (envId : BitVec 32) : Prop where
  queued : ∀ name env, Searched state.numOfReadyQueues name → env ∈ contents name →
    state.envId env = envId → ∃ after, schedExitEnv fosScheduler envId state = .ok ((), after) ∧
      Exited state after (without contents name env) env ∧ after.curenv = state.curenv
  running : ∀ env, state.curenv = some env → state.envId env = envId →
    ∃ after, schedExitEnv fosScheduler envId state = fosScheduler after ∧
      Exited state after contents env ∧ after.curenv = none
  absent : (∀ name env, Searched state.numOfReadyQueues name → env ∈ contents name →
      state.envId env ≠ envId) → (∀ env, state.curenv = some env → state.envId env ≠ envId) →
    ∃ after, schedExitEnv fosScheduler envId state = .ok ((), after) ∧
      after.Holds (Known state.numOfReadyQueues) contents ∧ Sched.Kept state after

/-- An environment runs, and the id is of none in the new queue. -/
structure ExitFits (state : Sched) (contents : QueueName → List Nat) (envId : BitVec 32) :
    Prop where
  running : state.curenv ≠ none
  notNew : ∀ env ∈ contents .new, state.envId env ≠ envId

/-! ## The searches -/

theorem Searched.known {count : Nat} (searched : Searched count name) :
    Known count name ∧ name ≠ .free ∧ name ≠ .exit := by
  cases name with
  | free => cases searched
  | exit => cases searched
  | new => exact ⟨trivial, by simp, by simp⟩
  | ready level => exact ⟨searched, by simp, by simp⟩

/-- The loop over the new queue takes the environment out and forgets it. -/
theorem removeFromNew_found (queues : Queues state contents) (member : env ∈ contents .new)
    {raised : Ending → Prop} :
    Ensures (removeFromNew (state.envId env)) state (fun pair after =>
      pair = (none, true) ∧ Removed state after (without contents .new env) env) raised := by
  have known : Known state.numOfReadyQueues .new := trivial
  have isLive := Queues.live known (by simp) member
  have represents := queues.holds.represents .new known
  have searched : Ensures (removeFromNew (state.envId env)) state
      (fun pair after => pair = (none, true) ∧ ∃ middle next,
        Removed state middle (without contents .new env) env ∧
          after = middle.setPtrNext .new next) raised := by
    refine search_continues represents (queues.few known) member rfl
      (queues.unique known (by simp) isLive) fun next => ?_
    have removed := (removeFromQueue_removed queues known member .new next).setEnvStatus .unknown
    have left := removed.holds.represents .new known
    rw [without, Function.update_self] at left
    exact Ensures.modify ⟨left, removeFromQueue_ptrNext queues known member next,
      fun other _ => congrFun removed.envId other, removed⟩
  refine searched.mono ?_ fun _ holds => holds
  rintro pair after ⟨rfl, middle, next, removed, rfl⟩
  exact ⟨rfl, removed.setPtrNext .new next⟩

theorem removeFromNew_absent (queues : Queues state contents) {raised : Ending → Prop}
    (absent : ∀ other ∈ contents .new, state.envId other ≠ envId) :
    Ensures (removeFromNew envId) state
      (fun pair after => pair = (none, false) ∧ Sched.Scanned state after) raised := by
  apply search_skips (queues.holds.represents .new trivial) (queues.few trivial) absent
  exact fun other current different => congrFun (if_neg different) _

theorem removeFromLevel_absent (queues : Queues state contents) {raised : Ending → Prop}
    (bound : level < state.numOfReadyQueues)
    (absent : ∀ other ∈ contents (.ready level), state.envId other ≠ envId) :
    Ensures (removeFromLevel envId level) state
      (fun pair after => pair = (none, false) ∧ Sched.Scanned state after) raised := by
  apply level_skips (queues.holds.represents (.ready level) bound) (queues.few bound) absent
  exact fun other current different => congrFun (if_neg different) _

theorem removeFromLevel_found (queues : Queues state contents) {raised : Ending → Prop}
    (bound : level < state.numOfReadyQueues) (member : env ∈ contents (.ready level)) :
    Ensures (removeFromLevel (state.envId env) level) state (fun pair after =>
      pair = (some env, true) ∧ Removed state after (without contents (.ready level) env) env)
      raised := by
  have known : Known state.numOfReadyQueues (.ready level) := bound
  have represents := queues.holds.represents (.ready level) known
  have filled : (state.queue (.ready level)).first ≠ none := represents.filled member
  refine Ensures.bind_get (Ensures.ite (fun _ => ?_) fun empty => absurd filled empty)
  refine search_stops represents (queues.few known) member rfl
    (queues.unique known (by simp) (Queues.live known (by simp) member)) fun next => ?_
  exact Ensures.modify (removeFromQueue_removed queues known member (.ready level) next)

theorem removeFromReady_found {raised : Ending → Prop} {levels : List Nat}
    (queues : Queues state contents) (known : ∀ other ∈ levels, other < state.numOfReadyQueues)
    (isLevel : level ∈ levels) (member : env ∈ contents (.ready level)) :
    Ensures (removeFromReady (state.envId env) levels) state (fun pair after =>
      pair = (some env, true) ∧ Removed state after (without contents (.ready level) env) env)
      raised := by
  apply queues.found_somewhere (fun _ _ => rfl) known isLevel member
  · exact fun current other queues bound absent => removeFromLevel_absent queues bound absent
  · intro current scanned inCurrent same
    rw [← same]
    refine (removeFromLevel_found (queues.scanned scanned) inCurrent member).mono ?_
      fun _ holds => holds
    exact fun pair after holds => ⟨holds.1, holds.2.afterScan scanned⟩

theorem removeFromReady_absent {raised : Ending → Prop} {levels : List Nat}
    (queues : Queues state contents) (known : ∀ other ∈ levels, other < state.numOfReadyQueues)
    (absent : ∀ level ∈ levels, ∀ other ∈ contents (.ready level), state.envId other ≠ envId) :
    Ensures (removeFromReady envId levels) state
      (fun pair after => pair = (none, false) ∧ Sched.Scanned state after) raised :=
  queues.absent_everywhere rfl (fun _ _ => rfl) known absent
    fun _ _ queues bound absent => removeFromLevel_absent queues bound absent

/-! ## The whole search -/

theorem search_new (queues : Queues state contents) (member : env ∈ contents .new)
    {raised : Ending → Prop} :
    Ensures (searchAndRemove (state.envId env)) state (fun pair after =>
      pair = (none, true) ∧ Removed state after (without contents .new env) env) raised := by
  refine Ensures.bind (removeFromNew_found queues member) ?_
  rintro pair after ⟨rfl, removed⟩
  exact Ensures.pure ⟨rfl, removed⟩

theorem search_ready (queues : Queues state contents) {raised : Ending → Prop}
    (bound : level < state.numOfReadyQueues) (member : env ∈ contents (.ready level)) :
    Ensures (searchAndRemove (state.envId env)) state (fun pair after =>
      pair = (some env, true) ∧ Removed state after (without contents (.ready level) env) env)
      raised := by
  have known : Known state.numOfReadyQueues (.ready level) := bound
  have isNew : Known state.numOfReadyQueues .new := trivial
  have outside : env ∉ contents .new := queues.elsewhere known isNew (by simp) member
  refine Ensures.bind (removeFromNew_absent queues (queues.absent isNew (by simp)
    (Queues.live known (by simp) member) outside)) ?_
  rintro pair middle ⟨rfl, scanned⟩
  have kept := scanned.kept
  refine Ensures.bind_get ?_
  rw [kept.numOfReadyQueues]
  have levels : ∀ other ∈ List.range state.numOfReadyQueues, other < middle.numOfReadyQueues := by
    rw [kept.numOfReadyQueues]
    exact fun other member => List.mem_range.mp member
  have found : Ensures (removeFromReady (middle.envId env) _) middle _ raised :=
    removeFromReady_found (queues.scanned scanned) levels (List.mem_range.mpr bound) member
  rw [kept.envId] at found
  refine Ensures.bind found ?_
  rintro pair after ⟨rfl, removed⟩
  exact Ensures.pure ⟨rfl, removed.afterScan scanned⟩

/-- The searches of the queues when no environment there has the id. -/
theorem search_queues {raised : Ending → Prop} (queues : Queues state contents)
    {rest : Option Nat × Bool → Sched → Prop}
    (absent : ∀ name env, Searched state.numOfReadyQueues name → env ∈ contents name →
      state.envId env ≠ envId)
    (current : ∀ middle, Sched.Scanned state middle → Ensures (do
      let current ← curenvId
      let state ← get
      if current = envId then return (state.curenv, true) else return (none, false))
        middle rest raised) :
    Ensures (searchAndRemove envId) state rest raised := by
  refine Ensures.bind (removeFromNew_absent queues fun other => absent .new other trivial) ?_
  rintro pair middle ⟨rfl, scanned⟩
  have kept := scanned.kept
  refine Ensures.bind_get ?_
  have levels : ∀ other ∈ List.range middle.numOfReadyQueues, other < middle.numOfReadyQueues :=
    fun other => List.mem_range.mp
  refine Ensures.bind (removeFromReady_absent (queues.scanned scanned) levels ?_) ?_
  · intro level member other inLevel
    rw [kept.envId]
    rw [kept.numOfReadyQueues, List.mem_range] at member
    exact absent (.ready level) other member inLevel
  · rintro pair after ⟨rfl, further⟩
    exact current after (scanned.trans further)

theorem not_searched (queues : Queues state contents) (running : state.curenv = some env) :
    ∀ name other, Searched state.numOfReadyQueues name → other ∈ contents name →
      state.envId other ≠ state.envId env := by
  intro name other searched member
  have known := searched.known
  exact queues.absent known.1 known.2.1 (.inl running) (queues.outside env running name known.1)
    other member

theorem search_running (queues : Queues state contents) (running : state.curenv = some env)
    {raised : Ending → Prop} :
    Ensures (searchAndRemove (state.envId env)) state
      (fun pair after => pair = (some env, true) ∧ Sched.Scanned state after) raised := by
  refine search_queues queues (not_searched queues running) fun middle scanned => ?_
  have current : middle.curenv = some env := scanned.kept.curenv.trans running
  refine Ensures.bind (curenvId_some current) ?_
  rintro found after ⟨rfl, rfl⟩
  refine Ensures.bind_get (Ensures.ite (fun _ => ?_) fun different => ?_)
  · exact Ensures.pure ⟨by rw [current], scanned⟩
  · exact absurd (congrFun scanned.kept.envId env) different

theorem search_absent (queues : Queues state contents) (running : state.curenv = some env)
    (other : state.envId env ≠ envId) {raised : Ending → Prop}
    (absent : ∀ name env, Searched state.numOfReadyQueues name → env ∈ contents name →
      state.envId env ≠ envId) :
    Ensures (searchAndRemove envId) state
      (fun pair after => pair = (none, false) ∧ Sched.Scanned state after) raised := by
  refine search_queues queues absent fun middle scanned => ?_
  have current : middle.curenv = some env := scanned.kept.curenv.trans running
  refine Ensures.bind (curenvId_some current) ?_
  rintro found after ⟨rfl, rfl⟩
  refine Ensures.bind_get (Ensures.ite (fun same => ?_) fun _ => ?_)
  · rw [scanned.kept.envId] at same
    exact absurd same other
  · exact Ensures.pure ⟨rfl, scanned⟩

/-! ## The exit -/

theorem schedInsertExit_exited (removed : Removed state after taken env)
    (fresh : ∀ name, Known state.numOfReadyQueues name → env ∉ taken name)
    (room : (taken .exit).length ≤ nenv) :
    Exited state (after.schedInsertExit (some env)) taken env := by
  have small : nenv + 1 < 2 ^ 32 := by decide
  have isExit : Known state.numOfReadyQueues .exit := trivial
  have kept := Sched.enqueue_kept (after.setEnvStatus env .exit) .exit (some env)
  have marked : (after.setEnvStatus env .exit).Holds (Known state.numOfReadyQueues) taken :=
    removed.holds
  have entered := marked.enqueue isExit (some env)
    (by
      rintro value ⟨⟩
      exact fresh) (by omega)
  refine ⟨entered, kept.envId.trans removed.envId, ?_, fun other different => ?_⟩
  · exact (congrFun kept.envStatus env).trans (Function.update_self _ _ _)
  · exact (congrFun kept.envStatus other).trans
      ((Function.update_of_ne different _ _).trans (removed.status other different))

theorem schedInsertExit_curenv (env : Option Nat) (state : Sched) :
    (state.schedInsertExit env).curenv = state.curenv := by
  cases env with
  | none => rfl
  | some env => exact (Sched.enqueue_kept (state.setEnvStatus env .exit) .exit (some env)).curenv

/-- With nothing running every call ends at the null pointer. -/
theorem schedExitEnv_null (queues : Queues state contents) (idle : state.curenv = none) :
    Ensures (schedExitEnv fosScheduler envId) state (fun _ _ => False)
      (· = .failed .badPointer) := by
  have tail : ∀ found after, after.curenv = none → Ensures (do
      modify (Sched.schedInsertExit found)
      let current ← curenvId
      if current = envId then
        modify (Sched.setCurenv none)
        fosScheduler
      else return ()) after (fun _ _ => False) (· = .failed .badPointer) := by
    intro found after noCurrent
    refine Ensures.bind_modify (Ensures.bind (curenvId_none
      ((schedInsertExit_curenv found after).trans noCurrent)) fun _ _ => ?_)
    exact fun impossible => impossible.elim
  by_cases inNew : ∃ env ∈ contents .new, state.envId env = envId
  · rcases inNew with ⟨env, member, rfl⟩
    refine Ensures.bind (search_new queues member) ?_
    rintro pair after ⟨rfl, removed⟩
    exact tail none after (removed.curenv.trans idle)
  by_cases inReady : ∃ level < state.numOfReadyQueues, ∃ env ∈ contents (.ready level),
      state.envId env = envId
  · rcases inReady with ⟨level, bound, env, member, rfl⟩
    refine Ensures.bind (search_ready queues bound member) ?_
    rintro pair after ⟨rfl, removed⟩
    exact tail (some env) after (removed.curenv.trans idle)
  have absent : ∀ name env, Searched state.numOfReadyQueues name → env ∈ contents name →
      state.envId env ≠ envId := by
    intro name env searched member same
    cases name with
    | free => exact searched
    | exit => exact searched
    | new => exact inNew ⟨env, member, same⟩
    | ready level => exact inReady ⟨level, searched, env, member, same⟩
  have search : Ensures (searchAndRemove envId) state (fun _ _ => False)
      (· = .failed .badPointer) := by
    refine search_queues queues absent fun middle scanned => ?_
    exact Ensures.bind (curenvId_none (scanned.kept.curenv.trans idle))
      fun _ _ impossible => impossible.elim
  exact Ensures.bind search fun _ _ impossible => impossible.elim

/-- An environment in the new queue disappears. -/
theorem schedExitEnv_new (queues : Queues state contents) (member : env ∈ contents .new)
    {current : Nat} (running : state.curenv = some current) :
    Ensures (schedExitEnv fosScheduler (state.envId env)) state
      (fun _ after => Removed state after (without contents .new env) env) (fun _ => False) := by
  have isNew : Known state.numOfReadyQueues .new := trivial
  refine Ensures.bind (search_new queues member) ?_
  rintro pair after ⟨rfl, removed⟩
  refine Ensures.bind_modify (Ensures.bind (curenvId_some (removed.curenv.trans running)) ?_)
  rintro found final ⟨rfl, rfl⟩
  refine Ensures.ite (fun same => ?_) fun _ => Ensures.pure removed
  rw [Sched.schedInsertExit, removed.envId] at same
  have equal := queues.ids current env (.inl running) (Queues.live isNew (by simp) member) same
  exact absurd (equal ▸ member) (queues.outside current running .new isNew)

theorem schedExitEnv_ready (queues : Queues state contents) {current : Nat}
    (running : state.curenv = some current) (bound : level < state.numOfReadyQueues)
    (member : env ∈ contents (.ready level)) :
    Ensures (schedExitEnv fosScheduler (state.envId env)) state (fun _ after =>
      Exited state after (without contents (.ready level) env) env ∧
        after.curenv = state.curenv) (fun _ => False) := by
  have known : Known state.numOfReadyQueues (.ready level) := bound
  have isExit : Known state.numOfReadyQueues .exit := trivial
  refine Ensures.bind (search_ready queues bound member) ?_
  rintro pair after ⟨rfl, removed⟩
  have room : (without contents (.ready level) env .exit).length ≤ nenv := by
    rw [without, Function.update_of_ne (by simp)]
    exact queues.few isExit
  have exited := schedInsertExit_exited removed (without_fresh queues known member) room
  have same : (after.schedInsertExit (some env)).curenv = state.curenv :=
    (schedInsertExit_curenv _ _).trans removed.curenv
  refine Ensures.bind_modify (Ensures.bind (curenvId_some (same.trans running)) ?_)
  rintro found final ⟨rfl, rfl⟩
  refine Ensures.ite (fun isCurrent => ?_) fun _ => Ensures.pure ⟨exited, same⟩
  rw [exited.envId] at isCurrent
  have equal := queues.ids current env (.inl running) (Queues.live known (by simp) member)
    isCurrent
  exact absurd (equal ▸ member) (queues.outside current running _ known)

theorem schedExitEnv_running (queues : Queues state contents) (running : state.curenv = some env) :
    ∃ after, schedExitEnv fosScheduler (state.envId env) state = fosScheduler after ∧
      Exited state after contents env ∧ after.curenv = none := by
  have isExit : Known state.numOfReadyQueues .exit := trivial
  rcases (search_running queues running).returns with ⟨pair, after, found, rfl, scanned⟩
  have exited := schedInsertExit_exited (Removed.ofScanned queues scanned env)
    (queues.outside env running) (queues.few isExit)
  have current : (after.schedInsertExit (some env)).curenv = some env :=
    (schedInsertExit_curenv _ _).trans (scanned.kept.curenv.trans running)
  have own : curenvId (after.schedInsertExit (some env)) =
      .ok (state.envId env, after.schedInsertExit (some env)) := by
    rcases (curenvId_some current).returns with ⟨id, final, returned, rfl, rfl⟩
    rw [returned, exited.envId]
  refine ⟨(after.schedInsertExit (some env)).setCurenv none, ?_, ?_, rfl⟩
  · change (searchAndRemove (state.envId env) state >>= fun pair => _) = _
    rw [found]
    change (curenvId (after.schedInsertExit (some env)) >>= fun pair => _) = _
    rw [own]
    exact congrFun (if_pos rfl) _
  · exact ⟨exited.holds, exited.envId, exited.status, exited.others⟩

theorem schedExitEnv_absent (queues : Queues state contents) {current : Nat}
    (running : state.curenv = some current) (other : state.envId current ≠ envId)
    (absent : ∀ name env, Searched state.numOfReadyQueues name → env ∈ contents name →
      state.envId env ≠ envId) :
    Ensures (schedExitEnv fosScheduler envId) state (fun _ after =>
      after.Holds (Known state.numOfReadyQueues) contents ∧ Sched.Kept state after)
      (fun _ => False) := by
  refine Ensures.bind (search_absent queues running other absent) ?_
  rintro pair after ⟨rfl, scanned⟩
  exact Ensures.pure ⟨scanned.holds _ _ queues.holds, scanned.kept⟩

/-- With an environment running or not, the call must come back or reach the scheduler. -/
theorem ExitsOne.not_idle (queues : Queues state contents)
    (exits : ExitsOne fosScheduler state contents envId) : state.curenv ≠ none := by
  intro idle
  have stops : Ensures (schedExitEnv fosScheduler envId) state (fun _ _ => False)
      (· = .failed .badPointer) := schedExitEnv_null queues idle
  rcases stops.raises with ⟨ending, stopped, -⟩
  by_cases queued : ∃ name env, Searched state.numOfReadyQueues name ∧ env ∈ contents name ∧
      state.envId env = envId
  · rcases queued with ⟨name, env, searched, member, same⟩
    rcases exits.queued name env searched member same with ⟨after, returned, -⟩
    rw [stopped] at returned
    cases returned
  · have absent : ∀ name env, Searched state.numOfReadyQueues name → env ∈ contents name →
        state.envId env ≠ envId := fun name env searched member same =>
      queued ⟨name, env, searched, member, same⟩
    have noCurrent : ∀ env, state.curenv = some env → state.envId env ≠ envId := by
      intro env running
      rw [idle] at running
      cases running
    rcases exits.absent absent noCurrent with ⟨after, returned, -⟩
    rw [stopped] at returned
    cases returned

/-- What is taken out of the new queue does not come into the exit queue. -/
theorem ExitsOne.notNew (queues : Queues state contents)
    (exits : ExitsOne fosScheduler state contents envId) {current : Nat}
    (running : state.curenv = some current) (member : env ∈ contents .new) :
    state.envId env ≠ envId := by
  intro same
  have isExit : Known state.numOfReadyQueues .exit := trivial
  rcases exits.queued .new env trivial member same with ⟨after, returned, exited, -⟩
  subst same
  have removed : Removed state after (without contents .new env) env :=
    (schedExitEnv_new queues member running).of_ok returned
  have entered := (exited.holds.represents .exit isExit).size
  have before := (removed.holds.represents .exit isExit).size
  rw [Function.update_self, List.length_cons] at entered
  omega

/-- `sched_exit_env` moves exactly the named environment if and only if an environment runs
and the named one is not in the new queue. -/
theorem exits_one_iff (queues : Queues state contents) :
    ExitsOne fosScheduler state contents envId ↔ ExitFits state contents envId := by
  constructor
  · intro exits
    have running := exits.not_idle queues
    rcases Option.ne_none_iff_exists'.mp running with ⟨current, isCurrent⟩
    exact ⟨running, fun env member => exits.notNew queues isCurrent member⟩
  · intro fits
    rcases Option.ne_none_iff_exists'.mp fits.running with ⟨current, running⟩
    refine ⟨fun name env searched member same => ?_, fun env isCurrent same => ?_,
      fun absent noCurrent => ?_⟩
    · subst same
      cases name with
      | free => exact searched.elim
      | exit => exact searched.elim
      | new => exact absurd rfl (fits.notNew env member)
      | ready level =>
          rcases (schedExitEnv_ready queues running searched member).returns with
            ⟨_, after, returned, exited⟩
          exact ⟨after, returned, exited⟩
    · subst same
      exact schedExitEnv_running queues isCurrent
    · rcases (schedExitEnv_absent queues running (noCurrent current running) absent).returns with
        ⟨_, after, returned, same⟩
      exact ⟨after, returned, same⟩

end Exit

/-! ## Two environments -/

/-- Slot 0 runs under round robin and all queues are empty. -/
def sampleEmpty : Sched where
  toEnvTable :=
    { EnvTable.zero with
      envId := fun env => 0x1000#32 ||| BitVec.ofNat 32 env
      curenv := some 0 }
  envNewQueue := ⟨none, none, none, 0⟩
  envExitQueue := ⟨none, none, none, 0⟩
  envReadyQueues := fun _ => ⟨none, none, none, 0⟩
  numOfReadyQueues := 1
  quantums := fun _ => clockIntervalInMs
  schedulerMethod := .rr
  schedulerStatus := .started
  quantumWrites := []
  latch := fun _ => 0
  freshQueues := fun _ _ => ⟨none, none, none, 0⟩
  chkstatus := 0
  pe := none
  ne := none
  pl := 0
  nl := 0

/-- Slot 1 is in a queue. -/
def sampleSched (name : QueueName) : Sched := sampleEmpty.enqueue name (some 1)

def sampleQueued (name other : QueueName) : List Nat := if other = name then [1] else []

theorem sampleEmpty_holds : sampleEmpty.Holds (Known 1) fun _ => [] where
  represents := by
    intro name known
    cases name <;> exact ⟨.nil _, .nil, rfl, rfl, rfl⟩
  apart := by
    intro left right _ _ _ env member
    cases member

theorem sample_queues {name : QueueName} (searched : Searched 1 name) :
    Queues (sampleSched name) (sampleQueued name) := by
  have known := searched.known
  have kept := Sched.enqueue_kept sampleEmpty name (some 1)
  have levels : (sampleSched name).numOfReadyQueues = 1 := kept.numOfReadyQueues
  have current : (sampleSched name).curenv = some 0 := kept.curenv
  have ids : (sampleSched name).envId = fun env => 0x1000#32 ||| BitVec.ofNat 32 env := kept.envId
  have only : ∀ other env, env ∈ sampleQueued name other → env = 1 := by
    intro other env member
    unfold sampleQueued at member
    split at member
    · exact List.mem_singleton.mp member
    · cases member
  have contents : sampleQueued name = Function.update (fun _ => []) name [1] := by
    funext other
    rw [sampleQueued, Function.update_apply]
  have live : ∀ env, Live (sampleSched name) (sampleQueued name) env → env = 0 ∨ env = 1 := by
    rintro env (running | ⟨other, -, -, member⟩)
    · rw [current, Option.some.injEq] at running
      exact .inl running.symm
    · exact .inr (only other env member)
  refine ⟨?_, ?_, ?_, ?_⟩
  · rw [levels, contents]
    exact sampleEmpty_holds.enqueue known.1 (some 1) (by simp) (by decide)
  · intro other _ env member
    rw [only other env member]
    decide
  · intro env running other _ member
    rw [current, Option.some.injEq] at running
    rw [only other env member] at running
    cases running
  · intro left right isLeft isRight same
    rw [ids] at same
    rcases live left isLeft with rfl | rfl <;> rcases live right isRight with rfl | rfl
    · rfl
    · exact absurd same (by decide)
    · exact absurd same (by decide)
    · rfl

theorem exits_from_ready_queue :
    ExitsOne (FosKernel.fosScheduler 2) (sampleSched (.ready 0)) (sampleQueued (.ready 0))
      0x1001 := by
  have searched : Searched 1 (.ready 0) := Nat.zero_lt_one
  refine (exits_one_iff (sample_queues searched)).mpr ⟨nofun, ?_⟩
  intro env member
  cases member

/-- An environment that is still new is in no queue afterwards. -/
theorem exit_loses_new_environment :
    Queues (sampleSched .new) (sampleQueued .new) ∧
      ¬ExitsOne (FosKernel.fosScheduler 2) (sampleSched .new) (sampleQueued .new) 0x1001 := by
  have queues : Queues (sampleSched .new) (sampleQueued .new) := sample_queues trivial
  have member : 1 ∈ sampleQueued .new .new := List.mem_singleton_self 1
  exact ⟨queues, fun exits => exits.notNew queues rfl member rfl⟩

end FosKernel.EnvironmentExit
