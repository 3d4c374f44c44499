import FosKernel.Properties.RoundRobin

/-! # Status and place of the environments

`env_status` follows the queues except where the scheduler puts the environment that it
interrupts into the ready queue.
-/

namespace FosKernel.EnvironmentStatus

open LinkedList RoundRobin

section Places

variable {state after : Sched} {contents taken later : QueueName → List Nat} {name : QueueName}
variable {env : Nat} {aside exited : List Nat} {raised : Ending → Prop}

/-- The status of the environments in a list. -/
def place : QueueName → EnvStatus
  | .free => .free
  | .new => .new
  | .exit => .exit
  | .ready _ => .ready

def Labelled (state : Sched) (contents : QueueName → List Nat) : Prop :=
  ∀ name, InUse name → ∀ env ∈ contents name, state.envStatus env = place name

/-- What holds between two calls. -/
structure Agreeing (state : Sched) (contents : QueueName → List Nat) : Prop
    extends Good state contents where
  labelled : Labelled state contents
  idle : state.schedulerStatus = .stopped → state.curenv = none

def Agreed (state : Sched) : Prop := ∃ contents, Agreeing state contents

def AgreedAt (ending : Ending) : Prop := ∃ after, ending = .switched after ∧ Agreed after

/-! ## Labels -/

theorem Labelled.same (labelled : Labelled state contents)
    (equal : after.envStatus = state.envStatus) : Labelled after contents := by
  intro name inUse env member
  rw [equal]
  exact labelled name inUse env member

/-- An environment that was taken out of its list comes into another one. -/
theorem Labelled.moved (labelled : Labelled state contents)
    (within : ∀ other, InUse other → taken other ⊆ contents other)
    (fresh : ∀ other, InUse other → env ∉ taken other) (own : after.envStatus env = place name)
    (others : ∀ other, other ≠ env → after.envStatus other = state.envStatus other) :
    Labelled after (Function.update taken name (env :: taken name)) := by
  have before : ∀ other, InUse other → ∀ slot ∈ taken other,
      after.envStatus slot = place other := by
    intro other inUse slot member
    have different : slot ≠ env := fun equal => fresh other inUse (equal ▸ member)
    rw [others slot different]
    exact labelled other inUse slot (within other inUse member)
  intro other inUse slot member
  by_cases same : other = name
  · subst same
    rw [Function.update_self] at member
    rcases List.mem_cons.mp member with rfl | inTaken
    · exact own
    · exact before other inUse slot inTaken
  · rw [Function.update_of_ne same] at member
    exact before other inUse slot member

theorem erase_within (contents : QueueName → List Nat) (name : QueueName) (env : Nat) :
    ∀ other, Function.update contents name ((contents name).erase env) other ⊆ contents other := by
  intro other
  by_cases same : other = name
  · subst same
    rw [Function.update_self]
    exact List.erase_subset
  · rw [Function.update_of_ne same]
    exact List.Subset.refl _

/-- The next environment leaves the ready queue; nobody comes in unless the scheduler
interrupts an environment while another waits. -/
theorem Labelled.selected (labelled : Labelled state contents)
    (placed : Placed state contents state.curenv.toList)
    (calm : state.curenv = none ∨ contents (.ready 0) = [])
    (selected : Sched.Selected InUse contents state after) :
    Labelled after (Function.update contents (.ready 0)
      (state.order (contents (.ready 0))).tail.reverse) := by
  intro name inUse env member
  by_cases same : name = .ready 0
  · subst same
    rw [Function.update_self, List.mem_reverse] at member
    have waits : env ∈ contents (.ready 0) := by
      have inOrder := List.mem_of_mem_tail member
      rcases calm with noCurrent | empty
      · rw [Sched.order, noCurrent] at inOrder
        simpa using inOrder
      · rw [Sched.order, empty] at member
        cases current : state.curenv with
        | none => simp [current] at member
        | some other => simp [current] at member
    have notCurrent : after.curenv ≠ some env := by
      intro isCurrent
      rw [selected.current] at isCurrent
      exact Sched.order_distinct placed.order_ids isCurrent env member rfl
    rw [selected.envStatus env notCurrent]
    exact labelled (.ready 0) rfl env waits
  · rw [Function.update_of_ne same] at member
    have notCurrent : after.curenv ≠ some env := by
      intro isCurrent
      rw [selected.current] at isCurrent
      have inOrder := mem_order_iff.mpr (.inl isCurrent)
      exact placed.order_apart inUse same env inOrder member
    rw [selected.envStatus env notCurrent]
    exact labelled name inUse env member

/-! ## The loops -/

/-- What the loops that empty a queue keep. -/
structure Draining (before current : Sched) (aside exited : List Nat)
    (later : QueueName → List Nat) : Prop extends Drained before current aside exited later where
  labelled : Labelled current later
  schedulerStatus : current.schedulerStatus = before.schedulerStatus

theorem Draining.setPtrNext {current : Sched}
    (draining : Draining state current aside exited later) (name : QueueName)
    (next : Option Nat) : Draining state (current.setPtrNext name next) aside exited later := by
  have kept := Sched.setPtrNext_kept current name next
  exact ⟨draining.toDrained.setPtrNext name next, draining.labelled.same kept.envStatus,
    kept.schedulerStatus.trans draining.schedulerStatus⟩

theorem Draining.toExit {current : Sched} {rest : List Nat}
    (draining : Draining state current aside exited later)
    (equal : later (.ready 0) = env :: rest) :
    Draining state ((current.removeFromQueue (.ready 0) env).schedInsertExit (some env)) aside
      exited
      (Function.update (Function.update later (.ready 0) rest) .exit (env :: later .exit)) := by
  have inUse : InUse (.ready 0) := rfl
  have member : env ∈ later (.ready 0) := by simp [equal]
  have removed := draining.placed.removeFromQueue inUse (by simp) member
  have within := erase_within later (.ready 0) env
  rw [equal, List.erase_cons_head] at removed within
  have exit : Function.update later (.ready 0) rest .exit = later .exit :=
    Function.update_of_ne (by simp) _ _
  refine ⟨draining.toDrained.toExit equal, ?_, draining.schedulerStatus⟩
  rw [← exit]
  refine draining.labelled.moved (fun other _ => within other)
    (removed.outside env List.mem_cons_self).2 (Function.update_self _ _ _) ?_
  exact fun other different => Function.update_of_ne different _ _

theorem Draining.toReady {current : Sched}
    (draining : Draining state current aside exited later) (member : env ∈ later .new) :
    Draining state ((current.schedRemoveNew env).schedInsertReady env) aside exited
      (Function.update (Function.update later .new ((later .new).erase env)) (.ready 0)
        (env :: Function.update later .new ((later .new).erase env) (.ready 0))) := by
  have removed := draining.placed.schedRemoveNew member
  refine ⟨draining.toDrained.toReady member, ?_, draining.schedulerStatus⟩
  refine draining.labelled.moved (fun other _ => erase_within later .new env other)
    (removed.outside env List.mem_cons_self).2 (Function.update_self _ _ _) ?_
  intro other different
  exact (Function.update_of_ne different _ _).trans (Function.update_of_ne different _ _)

theorem Agreeing.drained (agreeing : Agreeing state contents)
    (draining : Draining state after state.curenv.toList exited later) : Agreeing after later := by
  refine ⟨agreeing.toGood.drained draining.toDrained, draining.labelled, fun stopped => ?_⟩
  rw [draining.curenv]
  exact agreeing.idle (draining.schedulerStatus.symm.trans stopped)

/-! ## The scheduler -/

/-- The state in which a dispatch ends. -/
theorem Labelled.dispatched (labelled : Labelled state contents)
    (placed : Placed state contents state.curenv.toList)
    (calm : state.curenv = none ∨ contents (.ready 0) = [])
    (selected : Sched.Selected InUse contents state after)
    (running : ∀ env, after.curenv = some env → after.envStatus env = .runnable)
    (idle : after.schedulerStatus = .stopped → after.curenv = none) :
    AgreedAt (.switched after) := by
  refine ⟨after, rfl, _, ⟨selected.roundRobin, placed.selected selected ?_, running⟩,
    labelled.selected placed calm selected, idle⟩
  intro env isCurrent
  rw [running env isCurrent]
  simp

theorem fosScheduler_idle_agrees (depth : Nat) (roundRobin : state.RoundRobin)
    (placed : Placed state contents state.curenv.toList) (labelled : Labelled state contents)
    (noCurrent : state.curenv = none) (noneReady : contents (.ready 0) = []) :
    Ensures (fosScheduler (depth + 1)) state (fun _ _ => False) AgreedAt := by
  refine Sched.fosScheduler_roundRobin depth roundRobin placed.holds rfl placed.fresh
    placed.order_few placed.order_ids ?_ ?_
  · intro after selected running idle
    exact labelled.dispatched placed (.inl noCurrent) selected running idle
  · intro failing reading selected _ some
    have empty : state.order (contents (.ready 0)) = [] := by
      simp [Sched.order, noCurrent, noneReady]
    rw [selected.current, empty] at some
    exact absurd rfl some

theorem schedExitAllReadyEnvs_drains (roundRobin : state.RoundRobin)
    (placed : Placed state contents aside) (labelled : Labelled state contents) :
    Ensures schedExitAllReadyEnvs state (fun _ after => ∃ later,
      Draining state after aside (contents .exit) later ∧ later (.ready 0) = []) raised := by
  refine Ensures.bind_get ?_
  have levels : List.range 1 = [0] := rfl
  rw [roundRobin.oneQueue, levels]
  have start : Draining state state aside (contents .exit) contents :=
    ⟨placed.drained roundRobin, labelled, rfl⟩
  refine Ensures.bind (exitLevel_drains start (fun _ _ holds => ⟨aside, holds.placed⟩)
    (fun _ _ next holds => holds.setPtrNext (.ready 0) next) ?_)
    fun _ after ensured => Ensures.pure ensured
  intro env rest current later holds equal
  refine ⟨_, holds.toExit equal, ?_⟩
  rw [Function.update_of_ne (by simp), Function.update_self]

/-- The exit of the running environment, before the scheduler goes on. -/
theorem schedExitEnv_agrees {scheduler : Scheduling Unit} (roundRobin : state.RoundRobin)
    (placed : Placed state contents state.curenv.toList) (labelled : Labelled state contents)
    (running : state.curenv = some env)
    (scheduled : ∀ after, after.RoundRobin → after.curenv = none →
      Placed after (Function.update contents .exit (env :: contents .exit)) after.curenv.toList →
      Labelled after (Function.update contents .exit (env :: contents .exit)) →
      Ensures scheduler after (fun _ _ => False) raised) :
    Ensures (schedExitEnv scheduler (state.envId env)) state (fun _ _ => False) raised := by
  have outside := placed.fresh env running
  rw [running] at placed
  refine schedExitEnv_current roundRobin placed running ?_
  intro after robin noCurrent status afterPlaced
  refine scheduled after robin noCurrent (afterPlaced.idle noCurrent) ?_
  refine labelled.moved (fun other _ => List.Subset.refl _) outside ?_ ?_
  · rw [status, Function.update_self]
    rfl
  · intro other different
    rw [status, Function.update_of_ne different]

theorem panicAll_agrees (depth : Nat) (roundRobin : state.RoundRobin)
    (placed : Placed state contents state.curenv.toList) (labelled : Labelled state contents) :
    Ensures (panicAll (fosScheduler (depth + 1))) state (fun _ _ => False) AgreedAt := by
  refine Ensures.bind (schedExitAllReadyEnvs_drains roundRobin placed labelled) ?_
  rintro ⟨⟩ after ⟨later, draining, noneReady⟩
  refine Ensures.bind_get ?_
  have afterPlaced := draining.placed
  rw [← draining.curenv] at afterPlaced
  cases current : after.curenv with
  | none =>
      exact fosScheduler_idle_agrees depth draining.roundRobin afterPlaced draining.labelled
        current noneReady
  | some env =>
      refine Ensures.bind (schedExitEnv_agrees draining.roundRobin afterPlaced draining.labelled
        current ?_) fun _ _ impossible => impossible.elim
      intro final robin noCurrent finalPlaced finalLabelled
      refine fosScheduler_idle_agrees depth robin finalPlaced finalLabelled noCurrent ?_
      rw [Function.update_of_ne (by simp)]
      exact noneReady

theorem fosScheduler_agrees (depth : Nat) (roundRobin : state.RoundRobin)
    (placed : Placed state contents state.curenv.toList) (labelled : Labelled state contents)
    (calm : state.curenv = none ∨ contents (.ready 0) = []) :
    Ensures (fosScheduler (depth + 2)) state (fun _ _ => False) AgreedAt := by
  refine Sched.fosScheduler_roundRobin (depth + 1) roundRobin placed.holds rfl placed.fresh
    placed.order_few placed.order_ids ?_ ?_
  · intro after selected running idle
    exact labelled.dispatched placed calm selected running idle
  · intro failing reading selected envStatus _ _ _
    have failingPlaced := placed.selected selected (by
      intro env isCurrent
      rw [selected.current] at isCurrent
      have slot := placed.order_slots env (mem_order_iff.mpr (.inl isCurrent))
      rw [envStatus]
      exact (placed.live env slot.1 slot.2).1)
    exact panicAll_agrees depth selected.roundRobin failingPlaced
      (labelled.selected placed calm selected)

/-! ## Calls -/

/-- A call that returns or switches leaves status and place in agreement. -/
def KeepsAgreement (call : Scheduling Unit) (state : Sched) : Prop :=
  Ensures call state (fun _ after => Agreed after) AgreedAt

theorem Ensures.keepsAgreement {call : Scheduling Unit}
    (ensures : Ensures call state (fun _ _ => False) AgreedAt) : KeepsAgreement call state :=
  ensures.mono (fun _ _ impossible => impossible.elim) fun _ holds => holds

theorem envExit_agrees (depth : Nat) (agreeing : Agreeing state contents)
    (running : state.curenv = some env) :
    Ensures (envExit (fosScheduler (depth + 2))) state (fun _ _ => False) AgreedAt := by
  have own : Ensures curenvId state (fun found after => found = state.envId env ∧ after = state)
      AgreedAt := by
    refine Ensures.bind_get ?_
    rw [running]
    exact ⟨rfl, rfl⟩
  refine Ensures.bind own ?_
  rintro found after ⟨rfl, rfl⟩
  refine Ensures.bind (schedExitEnv_agrees agreeing.roundRobin agreeing.placed agreeing.labelled
    running ?_) fun _ _ impossible => (impossible : False).elim
  intro final robin noCurrent placed labelled
  exact fosScheduler_agrees depth robin placed labelled (.inl noCurrent)

theorem panic_agrees (depth : Nat) (agreeing : Agreeing state contents) :
    KeepsAgreement (panic (fosScheduler (depth + 2))) state := by
  refine Ensures.bind_get ?_
  cases running : state.curenv with
  | none =>
      exact Ensures.keepsAgreement (fosScheduler_agrees depth agreeing.roundRobin agreeing.placed
        agreeing.labelled (.inl running))
  | some env =>
      have isRunnable := agreeing.running env running
      refine Ensures.ite (fun _ => ?_) fun other => absurd isRunnable other
      exact Ensures.bind (envExit_agrees depth agreeing running)
        fun _ _ impossible => impossible.elim

theorem Agreeing.draining (agreeing : Agreeing state contents) :
    Draining state state state.curenv.toList (contents .exit) contents :=
  ⟨agreeing.placed.drained agreeing.roundRobin, agreeing.labelled, rfl⟩

theorem schedExitAllReadyEnvs_agrees (agreeing : Agreeing state contents) :
    KeepsAgreement schedExitAllReadyEnvs state := by
  refine (schedExitAllReadyEnvs_drains agreeing.roundRobin agreeing.placed
    agreeing.labelled).mono ?_ fun _ holds => holds
  rintro _ after ⟨later, draining, -⟩
  exact ⟨later, agreeing.drained draining⟩

/-- What is left to do when new environments have become ready. -/
theorem Agreeing.scheduled {current : Sched} (depth : Nat) (agreeing : Agreeing state contents)
    (draining : Draining state current state.curenv.toList exited later)
    (stopped : current.schedulerStatus = .stopped) :
    Ensures (fosScheduler (depth + 2)) current (fun _ _ => False) AgreedAt := by
  have moved := agreeing.drained draining
  exact fosScheduler_agrees depth moved.roundRobin moved.placed moved.labelled
    (.inl (moved.idle stopped))

theorem schedRunAll_agrees (depth : Nat) (agreeing : Agreeing state contents) :
    KeepsAgreement (schedRunAll (depth + 2)) state := by
  have inUse : InUse .new := trivial
  have moved : Ensures (foreachEnv .new () fun _ env => do
      modify (Sched.schedRemoveNew env)
      modify (Sched.schedInsertReady env)
      return .yield ()) state (fun _ after => ∃ later,
        Draining state after state.curenv.toList (contents .exit) later ∧ later .new = [])
      AgreedAt := by
    refine drain_ensures Sched.schedRemoveNew Sched.schedInsertReady inUse agreeing.draining
      (fun _ _ holds => ⟨_, holds.placed⟩) (fun _ _ next holds => holds.setPtrNext .new next) ?_
    intro env rest current later draining equal
    have member : env ∈ later .new := by simp [equal]
    refine ⟨_, draining.toReady member, ?_, ?_⟩
    · rw [Function.update_of_ne (by simp), Function.update_self, equal, List.erase_cons_head]
    · exact (draining.placed.holds.represents .new inUse).listRemove_ptrNext member
  refine Ensures.bind moved ?_
  rintro _ after ⟨later, draining, -⟩
  refine Ensures.bind_get (Ensures.ite (fun stopped => ?_) fun _ => ?_)
  · exact Ensures.keepsAgreement (agreeing.scheduled depth draining stopped)
  · exact Ensures.pure ⟨later, agreeing.drained draining⟩

theorem schedRunEnv_agrees (depth : Nat) (agreeing : Agreeing state contents)
    (envId : BitVec 32) : KeepsAgreement (schedRunEnv (depth + 2) envId) state := by
  have skipped := fun next => agreeing.draining.setPtrNext .new next
  refine schedRunEnv_ensures agreeing.placed envId ?_ ?_ ?_
  · exact fun next => ⟨_, agreeing.drained (skipped next)⟩
  · exact fun next env member => ⟨_, agreeing.drained ((skipped next).toReady member)⟩
  · exact fun next env member stopped =>
      agreeing.scheduled depth ((skipped next).toReady member) stopped

theorem createEnv_agrees (agreeing : Agreeing state contents) :
    KeepsAgreement createEnv state := by
  refine (createEnv_creates agreeing.toGood).mono ?_ fun _ holds => holds
  rintro _ after (rfl | ⟨env, rest, created⟩)
  · exact ⟨contents, agreeing⟩
  have lists := created.good.placed.holds
  have fresh : ∀ other, InUse other → env ∉ Function.update contents .free rest other := by
    intro other inUse member
    by_cases same : other = .new
    · subst same
      have nodup := (lists.represents .new trivial).nodup
      rw [Function.update_self, List.nodup_cons] at nodup
      exact nodup.1 member
    · have apart := lists.apart .new other trivial inUse (Ne.symm same) env
        (by simp [Function.update_self])
      rw [Function.update_of_ne same] at apart
      exact apart member
  have within : ∀ other, InUse other →
      Function.update contents .free rest other ⊆ contents other := by
    intro other _
    by_cases same : other = .free
    · subst same
      rw [Function.update_self, created.free]
      exact List.subset_cons_self _ _
    · rw [Function.update_of_ne same]
      exact List.Subset.refl _
  refine ⟨_, created.good, ?_, fun stopped => ?_⟩
  · exact agreeing.labelled.moved within fresh created.own created.others
  · rw [created.curenv]
    exact agreeing.idle (created.schedulerStatus.symm.trans stopped)

end Places

/-! ## Runs -/

section Runs

variable {depth : Nat} {state : Sched} {contents : QueueName → List Nat}

/-- The clock does not interrupt an environment while another one waits. -/
def Calm (state : Sched) : Call → Prop
  | .clockInterrupt => state.curenv = none ∨ (state.envReadyQueues 0).size = 0
  | _ => True

theorem Agreeing.call (agreeing : Agreeing state contents) (call : Call)
    (possible : call.Possible state) (calm : Calm state call) :
    KeepsAgreement (call.run (depth + 2)) state := by
  cases call with
  | newEnv => exact createEnv_agrees agreeing
  | runEnv envId => exact schedRunEnv_agrees depth agreeing envId
  | runAll => exact schedRunAll_agrees depth agreeing
  | clockInterrupt =>
      refine Ensures.keepsAgreement (fosScheduler_agrees depth agreeing.roundRobin agreeing.placed
        agreeing.labelled ?_)
      refine calm.imp_right fun empty => ?_
      have size := (agreeing.placed.holds.represents (.ready 0) rfl).size
      exact List.length_eq_zero_iff.mp (size.symm.trans empty)
  | envExit =>
      rcases Option.ne_none_iff_exists'.mp possible with ⟨env, running⟩
      exact Ensures.keepsAgreement (envExit_agrees depth agreeing running)
  | panic => exact panic_agrees depth agreeing
  | exitAllReadyEnvs => exact schedExitAllReadyEnvs_agrees agreeing
  | panicAll =>
      exact Ensures.keepsAgreement (panicAll_agrees (depth + 1) agreeing.roundRobin
        agreeing.placed agreeing.labelled)

theorem Agreeing.after (agreeing : Agreeing state contents) {call : Call}
    (possible : call.Possible state) (calm : Calm state call) {after : Sched}
    (returned : call.after (depth + 2) state = some after) : Agreed after := by
  have keeps : KeepsAgreement (call.run (depth + 2)) state := agreeing.call call possible calm
  unfold KeepsAgreement Ensures at keeps
  unfold Call.after at returned
  split at keeps
  · rename_i equal
    rw [equal, Option.some.injEq] at returned
    exact returned ▸ keeps
  · rename_i equal
    rcases keeps with ⟨final, rfl, agreed⟩
    rw [equal, Option.some.injEq] at returned
    exact returned ▸ agreed

/-- A run in which all steps are calm. -/
inductive CalmRun (depth : Nat) : Sched → Sched → Prop
  | refl (state : Sched) : CalmRun depth state state
  | step {start state after : Sched} {call : Call} :
      CalmRun depth start state → call.Possible state → Calm state call →
      call.after depth state = some after → CalmRun depth start after

theorem CalmRun.agrees {start : Sched} (run : CalmRun (depth + 2) start state)
    (agreed : Agreed start) : Agreed state := by
  induction run with
  | refl => exact agreed
  | step _ possible calm returned induction =>
      rcases induction with ⟨contents, agreeing⟩
      exact agreeing.after possible calm returned

/-- The queues, and the status of every environment, which says where it is. -/
structure StatusAgrees (state : Sched) (new ready exit : List Nat) : Prop where
  newQueue : Represents state.links state.envNewQueue new
  readyQueue : Represents state.links (state.envReadyQueues 0) ready
  exitQueue : Represents state.links state.envExitQueue exit
  isNew : ∀ env < nenv, state.envStatus env = .new ↔ env ∈ new
  isReady : ∀ env < nenv, state.envStatus env = .ready ↔ env ∈ ready
  isExit : ∀ env < nenv, state.envStatus env = .exit ↔ env ∈ exit
  isRunnable : ∀ env < nenv, state.envStatus env = .runnable ↔ state.curenv = some env

theorem Agreeing.statusAgrees (agreeing : Agreeing state contents) :
    StatusAgrees state (contents .new) (contents (.ready 0)) (contents .exit) := by
  have placed := agreeing.placed
  have lists := placed.holds
  -- An environment is at exactly one place, and no two places have the same status.
  have places : ∀ env < nenv, (state.curenv = some env ∧ state.envStatus env = .runnable) ∨
      ∃ name, InUse name ∧ env ∈ contents name ∧ state.envStatus env = place name := by
    intro env bound
    rcases placed.everyone env bound with isCurrent | ⟨name, inUse, member⟩
    · have running := Option.mem_toList.mp isCurrent
      exact .inl ⟨running, agreeing.running env running⟩
    · exact .inr ⟨name, inUse, member, agreeing.labelled name inUse env member⟩
  have inQueue : ∀ name, InUse name → ∀ env < nenv,
      state.envStatus env = place name ↔ env ∈ contents name := by
    intro name inUse env bound
    refine ⟨fun status => ?_, agreeing.labelled name inUse env⟩
    rcases places env bound with ⟨-, runnable⟩ | ⟨other, otherInUse, member, same⟩
    · rw [runnable] at status
      cases name <;> cases status
    · rw [same] at status
      have equal : other = name := by
        cases name <;> cases other <;> simp_all [place, InUse]
      exact equal ▸ member
  refine ⟨lists.represents .new trivial, lists.represents (.ready 0) rfl,
    lists.represents .exit trivial, inQueue .new trivial, inQueue (.ready 0) rfl,
    inQueue .exit trivial, fun env bound => ⟨fun status => ?_, agreeing.running env⟩⟩
  rcases places env bound with ⟨running, -⟩ | ⟨name, -, -, same⟩
  · exact running
  · rw [status] at same
    cases name <;> cases same

/-- In every run in which the clock interrupts nobody for another one, status and place
agree all the time. -/
theorem status_agrees {raw start : Sched} (zeroed : raw.toEnvTable = .zero)
    (booted : boot raw = .ok ((), start)) (run : CalmRun (depth + 2) start state) :
    ∃ new ready exit, StatusAgrees state new ready exit := by
  rcases boot_good zeroed with ⟨initial, contents, returned, good, noCurrent, empty⟩
  rw [returned, Except.ok.injEq, Prod.mk.injEq] at booted
  rcases booted with ⟨-, rfl⟩
  have labelled : Labelled initial contents := by
    intro name inUse env member
    by_cases isFree : name = .free
    · subst isFree
      exact (good.placed.freed env member).1
    · rw [empty name isFree] at member
      cases member
  rcases run.agrees ⟨contents, good, labelled, fun _ => noCurrent⟩ with ⟨final, agreeing⟩
  exact ⟨_, _, _, agreeing.statusAgrees⟩

/-- Zeroed memory, and a timer that always reads as just loaded. -/
def sampleRaw : Sched := { sampleQueue with toEnvTable := .zero }

theorem status_agrees_two_calls :
    ∃ start state new ready exit, boot sampleRaw = .ok ((), start) ∧ CalmRun 2 start state ∧
      StatusAgrees state new ready exit := by
  have zeroed : sampleRaw.toEnvTable = EnvTable.zero := rfl
  rcases boot_good zeroed with ⟨start, contents, booted, good, -⟩
  rcases Call.newEnv.after_good good trivial with ⟨created, equal, later, createdGood, -⟩
  rcases Call.runAll.after_good createdGood trivial with ⟨state, ran, -⟩
  have begun : CalmRun 2 start created := .step (.refl start)
    (show Call.newEnv.Possible start from trivial) (show Calm start .newEnv from trivial) equal
  have run : CalmRun 2 start state := .step begun
    (show Call.runAll.Possible created from trivial) (show Calm created .runAll from trivial) ran
  rcases status_agrees zeroed booted run with ⟨new, ready, exit, agrees⟩
  exact ⟨start, state, new, ready, exit, booted, run, agrees⟩

/-- Two environments and one clock interrupt. -/
def interrupted (start : Sched) : Option Sched := do
  let state ← Call.newEnv.after 2 start
  let state ← Call.newEnv.after 2 state
  let state ← Call.runAll.after 2 state
  Call.clockInterrupt.after 2 state

/-- The interrupted environment keeps its status in the ready queue. -/
theorem status_disagrees_after_interrupt :
    ∃ start state, boot sampleRaw = .ok ((), start) ∧ Run 2 start state ∧
      ¬∃ new ready exit, StatusAgrees state new ready exit := by
  have zeroed : sampleRaw.toEnvTable = EnvTable.zero := rfl
  rcases boot_good zeroed with ⟨start, contents, booted, good, -⟩
  have goesOn : ∀ {state : Sched} {contents : QueueName → List Nat} (call : Call),
      Good state contents → call.Possible state →
        ∃ after, call.after 2 state = some after ∧ ∃ later, Good after later := by
    intro state contents call good possible
    rcases call.after_good good possible with ⟨after, equal, later, afterGood, -⟩
    exact ⟨after, equal, later, afterGood⟩
  rcases goesOn .newEnv good trivial with ⟨first, firstEqual, _, firstGood⟩
  rcases goesOn .newEnv firstGood trivial with ⟨second, secondEqual, _, secondGood⟩
  rcases goesOn .runAll secondGood trivial with ⟨third, thirdEqual, _, thirdGood⟩
  rcases goesOn .clockInterrupt thirdGood trivial with ⟨state, lastEqual, -⟩
  have ends : interrupted start = some state := by
    simp only [interrupted, firstEqual, secondEqual, thirdEqual, lastEqual, Option.bind_eq_bind,
      Option.bind_some]
  have outcome : (match boot sampleRaw with
      | .ok (_, start) => (interrupted start).map fun state =>
          decide (state.envStatus 1 = .runnable ∧ state.curenv = some 0)
      | .error _ => none) = some true := by
    decide +kernel
  rw [booted] at outcome
  simp only [ends, Option.map_some, Option.some.injEq, decide_eq_true_eq] at outcome
  refine ⟨start, state, booted, ?_, ?_⟩
  · have one : Run 2 start first := .step (.refl start)
      (show Call.newEnv.Possible start from trivial) firstEqual
    have two : Run 2 start second := .step one
      (show Call.newEnv.Possible first from trivial) secondEqual
    have three : Run 2 start third := .step two
      (show Call.runAll.Possible second from trivial) thirdEqual
    exact .step three (show Call.clockInterrupt.Possible third from trivial) lastEqual
  · rintro ⟨new, ready, exit, agrees⟩
    have running := (agrees.isRunnable 1 (by decide)).mp outcome.1
    rw [outcome.2] at running
    cases running

end Runs

end FosKernel.EnvironmentStatus
