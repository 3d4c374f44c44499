import FosKernel.Process.Scheduler

/-! # What the functions of the scheduler do to the queues

The queues are sequences of environments. `Kept` says that a function has changed nothing
but the queues and the timer.
-/

namespace FosKernel

open LinkedList

namespace Sched

variable {state : Sched} {name : QueueName}

theorem queue_setQueue (state : Sched) (name : QueueName) (head : ListHead Nat) :
    (state.setQueue name head).queue = Function.update state.queue name head := by
  funext other
  cases name <;> cases other <;> simp [setQueue, queue, Function.update_apply]

theorem queue_withList (state : Sched) (name : QueueName)
    (change : ListState Nat → ListState Nat) :
    (state.withList name change).queue =
      Function.update state.queue name (change ⟨state.links, state.queue name⟩).head :=
  queue_setQueue state name _

/-- Everything but the queues, the links and the quantums written to the timer. -/
structure Kept (before after : Sched) : Prop where
  curenv : after.curenv = before.curenv
  envId : after.envId = before.envId
  envStatus : after.envStatus = before.envStatus
  numOfReadyQueues : after.numOfReadyQueues = before.numOfReadyQueues
  quantums : after.quantums = before.quantums
  schedulerMethod : after.schedulerMethod = before.schedulerMethod
  schedulerStatus : after.schedulerStatus = before.schedulerStatus
  chkstatus : after.chkstatus = before.chkstatus
  pe : after.pe = before.pe
  ne : after.ne = before.ne
  pl : after.pl = before.pl
  nl : after.nl = before.nl
  latch : ∃ read, ∀ reading, after.latch reading = before.latch (reading + read)

theorem Kept.refl (state : Sched) : Kept state state :=
  ⟨rfl, rfl, rfl, rfl, rfl, rfl, rfl, rfl, rfl, rfl, rfl, rfl, 0, fun _ => rfl⟩

theorem Kept.trans {before middle after : Sched} (first : Kept before middle)
    (second : Kept middle after) : Kept before after where
  curenv := second.curenv.trans first.curenv
  envId := second.envId.trans first.envId
  envStatus := second.envStatus.trans first.envStatus
  numOfReadyQueues := second.numOfReadyQueues.trans first.numOfReadyQueues
  quantums := second.quantums.trans first.quantums
  schedulerMethod := second.schedulerMethod.trans first.schedulerMethod
  schedulerStatus := second.schedulerStatus.trans first.schedulerStatus
  chkstatus := second.chkstatus.trans first.chkstatus
  pe := second.pe.trans first.pe
  ne := second.ne.trans first.ne
  pl := second.pl.trans first.pl
  nl := second.nl.trans first.nl
  latch := by
    rcases first.latch with ⟨firstRead, firstLatch⟩
    rcases second.latch with ⟨secondRead, secondLatch⟩
    refine ⟨secondRead + firstRead, fun reading => ?_⟩
    rw [secondLatch, firstLatch, Nat.add_assoc]

theorem setQueue_kept (state : Sched) (name : QueueName) (head : ListHead Nat) :
    Kept state (state.setQueue name head) := by
  cases name <;>
    exact ⟨rfl, rfl, rfl, rfl, rfl, rfl, rfl, rfl, rfl, rfl, rfl, rfl, 0, fun _ => rfl⟩

theorem withList_kept (state : Sched) (name : QueueName)
    (change : ListState Nat → ListState Nat) : Kept state (state.withList name change) := by
  cases name <;>
    exact ⟨rfl, rfl, rfl, rfl, rfl, rfl, rfl, rfl, rfl, rfl, rfl, rfl, 0, fun _ => rfl⟩

/-! ## Single operations -/

variable {known : QueueName → Prop} {contents : QueueName → List Nat} {env : Nat}

/-- The queues in use spell out their sequences. -/
abbrev Holds (state : Sched) (known : QueueName → Prop) (contents : QueueName → List Nat) :
    Prop :=
  Lists state.links state.queue known contents

theorem holds_withList {change : ListState Nat → ListState Nat} {result : ListState Nat}
    (changed : change ⟨state.links, state.queue name⟩ = result)
    (lists : Lists result.links (Function.update state.queue name result.head) known contents) :
    (state.withList name change).Holds known contents := by
  subst changed
  rw [Holds, queue_withList]
  exact lists

theorem links_setPtrNext (state : Sched) (name : QueueName) (next : Option Nat) :
    (state.setPtrNext name next).links = state.links := by
  cases name <;> rfl

theorem Holds.setPtrNext (holds : state.Holds known contents) (name : QueueName)
    (next : Option Nat) : (state.setPtrNext name next).Holds known contents := by
  rw [Holds, links_setPtrNext, Sched.setPtrNext, queue_setQueue]
  refine holds.congr fun other => ?_
  by_cases same : other = name
  · subst same
    rw [Function.update_self]
    exact ⟨rfl, rfl, rfl⟩
  · rw [Function.update_of_ne same]
    exact ⟨rfl, rfl, rfl⟩

theorem setPtrNext_setPtrNext (state : Sched) (name : QueueName) (first second : Option Nat) :
    (state.setPtrNext name first).setPtrNext name second = state.setPtrNext name second := by
  cases name <;> simp [setPtrNext, setQueue, queue]

theorem setPtrNext_self (state : Sched) (name : QueueName) :
    state.setPtrNext name (state.queue name).ptrNext = state := by
  cases name <;> simp [setPtrNext, setQueue, queue]

theorem setPtrNext_kept (state : Sched) (name : QueueName) (next : Option Nat) :
    Kept state (state.setPtrNext name next) :=
  setQueue_kept state name _

theorem ptrNext_setPtrNext (state : Sched) (name : QueueName) (next : Option Nat) :
    ((state.setPtrNext name next).queue name).ptrNext = next := by
  rw [setPtrNext, queue_setQueue, Function.update_self]

theorem Holds.enqueue (holds : state.Holds known contents) (isKnown : known name)
    (env : Option Nat) (fresh : ∀ value, env = some value → ∀ other, known other →
      value ∉ contents other) (room : (contents name).length + 1 < 2 ^ 32) :
    (state.enqueue name env).Holds known
      (Function.update contents name (env.toList ++ contents name)) := by
  cases env with
  | none =>
      rw [Option.toList_none, List.nil_append, Function.update_eq_self]
      exact holds
  | some value =>
      exact holds_withList rfl (holds.listInsertHead isKnown (fresh value rfl) room)

theorem enqueue_kept (state : Sched) (name : QueueName) (env : Option Nat) :
    Kept state (state.enqueue name env) := by
  cases env with
  | none => exact Kept.refl state
  | some value => exact withList_kept state name (listInsertHead · value)

theorem Holds.removeFromQueue (holds : state.Holds known contents) (isKnown : known name)
    (member : env ∈ contents name) (room : (contents name).length < 2 ^ 32) :
    (state.removeFromQueue name env).Holds known
      (Function.update contents name ((contents name).erase env)) :=
  holds_withList rfl (holds.listRemove isKnown member room)

theorem removeFromQueue_kept (state : Sched) (name : QueueName) (env : Nat) :
    Kept state (state.removeFromQueue name env) :=
  withList_kept state name (listRemove · env)

/-- `dequeue` takes the oldest element of a queue, given oldest first. -/
theorem Holds.dequeue (holds : state.Holds known contents) (isKnown : known name)
    {order : List Nat} (ordered : contents name = order.reverse)
    (room : (contents name).length < 2 ^ 32) :
    ∃ after, state.dequeue name = (order.head?, after) ∧ Kept state after ∧
      after.quantumWrites = state.quantumWrites ∧
      after.Holds known (Function.update contents name order.tail.reverse) := by
  have represents := holds.represents name isKnown
  have last : (state.queue name).last = order.head? := by
    rw [represents.last, ordered, List.getLast?_reverse]
  cases order with
  | nil =>
      refine ⟨state, ?_, Kept.refl state, rfl, ?_⟩
      · simp [Sched.dequeue, last]
      · have empty : contents name = [] := ordered
        rw [List.tail_nil, List.reverse_nil, ← empty, Function.update_eq_self]
        exact holds
  | cons env rest =>
      have member : env ∈ contents name := by simp [ordered]
      have nodup := represents.nodup
      rw [ordered, List.reverse_cons] at nodup
      have absent : env ∉ rest.reverse := by
        intro inRest
        exact (List.nodup_append.mp nodup).2.2 env inRest env (by simp) rfl
      have erased : (contents name).erase env = rest.reverse := by
        rw [ordered, List.reverse_cons, List.erase_append_right _ absent]
        simp
      have removed := holds.removeFromQueue isKnown member room
      rw [erased] at removed
      refine ⟨state.removeFromQueue name env, ?_, removeFromQueue_kept state name env, ?_,
        removed⟩
      · simp [Sched.dequeue, last]
      · cases name <;> rfl

end Sched

/-! ## Traversal -/

section Traversal

variable {name : QueueName} {body : α → Nat → Scheduling (ForInStep α)}
variable (invariant : List Nat → α → Sched → Prop) (result : Option Nat → α → Sched → Prop)
variable {raised : Ending → Prop}

theorem Represents.next_of_split {links : Nat → Link Nat} {head : ListHead Nat}
    {done rest : List Nat} {env : Nat}
    (represents : Represents links head (done ++ env :: rest)) :
    (links env).next = rest[0]? := by
  have own := represents.linked done.length env (by simp)
  rw [own.1, List.getElem?_append_right (by omega)]
  simp

/-- A loop over a queue, with an invariant about the elements still to come. -/
theorem listForeach_ensures
    (next : ∀ env rest carried state, invariant (env :: rest) carried state →
      (state.links env).next = rest[0]?)
    (step : ∀ env rest carried state, invariant (env :: rest) carried state →
      Ensures (body carried env) (state.setPtrNext name rest[0]?)
        (fun forward after => match forward with
          | .done value => result (some env) value after
          | .yield value =>
              invariant rest value after ∧ (after.queue name).ptrNext = rest[0]?) raised)
    (finish : ∀ carried state, invariant [] carried state →
      result none carried (state.setPtrNext name none)) :
    ∀ rest fuel carried state, rest.length < fuel → invariant rest carried state →
      Ensures (listForeach name body fuel rest[0]? carried) state
        (fun pair after => result pair.1 pair.2 after) raised := by
  intro rest
  induction rest with
  | nil =>
      intro fuel carried state bound holds
      cases fuel with
      | zero => exact absurd bound (Nat.not_lt_zero _)
      | succ fuel => exact finish carried state holds
  | cons env rest induction =>
      intro fuel carried state bound holds
      cases fuel with
      | zero => exact absurd bound (Nat.not_lt_zero _)
      | succ fuel =>
          rw [List.length_cons, Nat.add_lt_add_iff_right] at bound
          refine Ensures.bind_modify ?_
          have links : (some env).bind (fun env => (state.links env).next) = rest[0]? :=
            next env rest carried state holds
          simp only [List.getElem?_cons_zero, links]
          refine Ensures.bind (step env rest carried state holds) ?_
          intro forward after ensured
          cases forward with
          | done value => exact Ensures.pure ensured
          | yield value =>
              refine Ensures.bind_get ?_
              rw [ensured.2]
              exact induction fuel value after bound ensured.1

theorem foreachEnv_ensures {values : List Nat} {start : α} {state : Sched}
    (represents : Represents state.links (state.queue name) values)
    (few : values.length ≤ nenv)
    (next : ∀ env rest carried state, invariant (env :: rest) carried state →
      (state.links env).next = rest[0]?)
    (step : ∀ env rest carried state, invariant (env :: rest) carried state →
      Ensures (body carried env) (state.setPtrNext name rest[0]?)
        (fun forward after => match forward with
          | .done value => result (some env) value after
          | .yield value =>
              invariant rest value after ∧ (after.queue name).ptrNext = rest[0]?) raised)
    (finish : ∀ carried state, invariant [] carried state →
      result none carried (state.setPtrNext name none))
    (begins : invariant values start state) :
    Ensures (foreachEnv name start body) state
      (fun pair after => result pair.1 pair.2 after) raised := by
  refine Ensures.bind_get ?_
  rw [represents.first]
  exact listForeach_ensures invariant result next step finish values (nenv + 1) start state
    (by omega) begins

/-- A search that meets no match changes nothing but the scratch field. -/
theorem foreachEnv_skips {values : List Nat} {start : α} {state : Sched}
    (represents : Represents state.links (state.queue name) values)
    (few : values.length ≤ nenv)
    (skips : ∀ env ∈ values, ∀ next, body start env (state.setPtrNext name next) =
      .ok (.yield start, state.setPtrNext name next)) :
    Ensures (foreachEnv name start body) state
      (fun pair after => pair = (none, start) ∧ ∃ next, after = state.setPtrNext name next)
      raised := by
  refine (foreachEnv_ensures
    (fun rest carried current => carried = start ∧ (∃ done, values = done ++ rest) ∧
      ∃ next, current = state.setPtrNext name next)
    (fun found carried after => found = none ∧ carried = start ∧
      ∃ next, after = state.setPtrNext name next) represents few ?_ ?_ ?_ ?_).mono ?_
    fun _ holds => holds
  · rintro env rest _ _ ⟨rfl, ⟨done, rfl⟩, next, rfl⟩
    rw [Sched.links_setPtrNext]
    exact represents.next_of_split
  · rintro env rest _ _ ⟨rfl, ⟨done, rfl⟩, next, rfl⟩
    rw [Sched.setPtrNext_setPtrNext, Ensures, skips env (by simp)]
    exact ⟨⟨rfl, ⟨done ++ [env], by simp⟩, _, rfl⟩, Sched.ptrNext_setPtrNext state name _⟩
  · rintro _ _ ⟨rfl, -, next, rfl⟩
    exact ⟨rfl, rfl, none, Sched.setPtrNext_setPtrNext state name next none⟩
  · exact ⟨rfl, ⟨[], rfl⟩, _, (Sched.setPtrNext_self state name).symm⟩
  · rintro ⟨found, carried⟩ after ⟨rfl, rfl, next, rfl⟩
    exact ⟨rfl, next, rfl⟩

end Traversal

theorem findEnvInQueue_ensures {name : QueueName} {values : List Nat} {state : Sched}
    {raised : Ending → Prop} (envId : BitVec 32)
    (represents : Represents state.links (state.queue name) values)
    (few : values.length ≤ nenv) :
    Ensures (findEnvInQueue name envId) state
      (fun found after => found = values.find? (fun env => state.envId env = envId) ∧
        ∃ next, after = state.setPtrNext name next) raised := by
  have loop : Ensures (foreachEnv name () fun _ env => do
      let state ← get
      if state.envId env = envId then return .done () else return .yield ()) state
      (fun pair after => pair.1 = values.find? (fun env => state.envId env = envId) ∧
        ∃ next, after = state.setPtrNext name next) raised := by
    refine foreachEnv_ensures
      (fun rest _ current => (∃ done, values = done ++ rest ∧
        ∀ env ∈ done, state.envId env ≠ envId) ∧ ∃ next, current = state.setPtrNext name next)
      (fun found _ after => found = values.find? (fun env => state.envId env = envId) ∧
        ∃ next, after = state.setPtrNext name next) represents few ?_ ?_ ?_ ?_
    · rintro env rest - current ⟨⟨done, rfl, -⟩, next, rfl⟩
      rw [Sched.links_setPtrNext]
      exact represents.next_of_split
    · rintro env rest - current ⟨⟨done, rfl, before⟩, next, rfl⟩
      rw [Sched.setPtrNext_setPtrNext]
      refine Ensures.bind_get ?_
      rw [(Sched.setPtrNext_kept state name _).envId]
      refine Ensures.ite ?_ ?_
      · intro same
        refine Ensures.pure ⟨?_, _, rfl⟩
        rw [List.find?_append, List.find?_eq_none.mpr (by simpa using before)]
        simp [same]
      · intro different
        refine Ensures.pure ⟨⟨⟨done ++ [env], by simp, ?_⟩, _, rfl⟩,
          Sched.ptrNext_setPtrNext state name _⟩
        intro other member
        rcases List.mem_append.mp member with inDone | isEnv
        · exact before other inDone
        · rw [List.mem_singleton.mp isEnv]
          exact different
    · rintro - current ⟨⟨done, rfl, before⟩, next, rfl⟩
      rw [List.append_nil]
      refine ⟨(List.find?_eq_none.mpr (by simpa using before)).symm, none, ?_⟩
      rw [Sched.setPtrNext_setPtrNext]
    · exact ⟨⟨[], rfl, by simp⟩, _, (Sched.setPtrNext_self state name).symm⟩
  exact Ensures.bind loop fun pair after ensured => Ensures.pure ensured

/-! ## Round robin -/

namespace Sched

/-- The environments in the order in which they are to run: those that wait, the oldest
first, and then the running one. -/
def order (state : Sched) (ready : List Nat) : List Nat := ready.reverse ++ state.curenv.toList

/-- One ready queue, a usable quantum and the checker at level zero. -/
structure RoundRobin (state : Sched) : Prop where
  method : state.schedulerMethod = .rr
  oneQueue : state.numOfReadyQueues = 1
  quantum : state.quantums 0 ≠ 0
  level : state.nl = 0

/-- The checker predicts the first environment of the order. -/
theorem chk1_roundRobin {state : Sched} {ready : List Nat} (roundRobin : state.RoundRobin)
    (represents : Represents state.links (state.queue (.ready 0)) ready)
    (active : state.chkstatus ≠ 0) :
    state.chk1 =
      { state with pe := state.curenv, pl := 0, nl := 0, ne := (state.order ready).head? } := by
  have levels : List.range 1 = [0] := rfl
  have size : (state.envReadyQueues 0).size = ready.length := represents.size
  have last : (state.envReadyQueues 0).last = ready.getLast? := represents.last
  have first : ready.reverse.head? = ready.getLast? := List.head?_reverse
  cases current : state.curenv with
  | none =>
      cases values : ready.getLast? with
      | none =>
          have empty : ready = [] := List.getLast?_eq_none_iff.mp values
          simp [chk1, active, schenv, firstNonEmpty, queueSize, queue, roundRobin.oneQueue,
            levels, size, current, order, empty]
      | some env =>
          have nonempty : ready ≠ [] := by
            rintro rfl
            cases values
          simp [chk1, active, schenv, firstNonEmpty, queueSize, queue, roundRobin.oneQueue,
            levels, size, current, order, last, nonempty, values, first]
  | some running =>
      cases values : ready.getLast? with
      | none =>
          have empty : ready = [] := List.getLast?_eq_none_iff.mp values
          simp [chk1, active, schenv, firstNonEmpty, queueSize, queue, roundRobin.oneQueue,
            levels, size, current, order, empty, roundRobin.level, demoted]
      | some env =>
          have nonempty : ready ≠ [] := by
            rintro rfl
            cases values
          simp [chk1, active, schenv, firstNonEmpty, queueSize, queue, roundRobin.oneQueue,
            levels, size, current, order, last, nonempty, values, first, roundRobin.level]

section Selection

variable {state : Sched} {known : QueueName → Prop} {contents : QueueName → List Nat}

theorem selectRR_ensures (roundRobin : state.RoundRobin) (holds : state.Holds known contents)
    (isKnown : known (.ready 0))
    (fresh : ∀ env, state.curenv = some env → ∀ other, known other → env ∉ contents other)
    (few : (state.order (contents (.ready 0))).length ≤ nenv) :
    Ensures selectRR state (fun next after =>
      next = (state.order (contents (.ready 0))).head? ∧ Kept state after ∧
      after.quantumWrites = state.quantumWrites ++ [state.quantums 0] ∧
      after.Holds known (Function.update contents (.ready 0)
        (state.order (contents (.ready 0))).tail.reverse)) (fun _ => False) := by
  have small : nenv + 1 < 2 ^ 32 := by decide
  have length : (state.order (contents (.ready 0))).length =
      (contents (.ready 0)).length + state.curenv.toList.length := by
    rw [order, List.length_append, List.length_reverse]
  have queued := holds.enqueue isKnown state.curenv fresh (by omega)
  have ordered : Function.update contents (.ready 0)
      (state.curenv.toList ++ contents (.ready 0)) (.ready 0) =
        (state.order (contents (.ready 0))).reverse := by
    rw [Function.update_self, order, List.reverse_append, List.reverse_reverse]
    cases state.curenv <;> rfl
  rcases queued.dequeue isKnown ordered (by
    rw [ordered, List.length_reverse]
    omega) with ⟨after, dequeued, kept, writes, rest⟩
  rw [Function.update_idem] at rest
  have bothKept := (enqueue_kept state (.ready 0) state.curenv).trans kept
  refine Ensures.bind_modify (Ensures.bind_get ?_)
  rw [dequeued]
  have usable : after.quantums 0 ≠ 0 := by
    rw [bothKept.quantums]
    exact roundRobin.quantum
  have writesQueued : (state.enqueue (.ready 0) state.curenv).quantumWrites =
      state.quantumWrites := by
    cases state.curenv <;> rfl
  simp only [kclockSetQuantum, usable, if_false]
  refine ⟨rfl, { bothKept with }, ?_, rest⟩
  change after.quantumWrites ++ [after.quantums 0] = _
  rw [writes, writesQueued, bothKept.quantums]

/-- Nothing but scratch fields and the readings of the timer has changed. -/
structure Scanned (before after : Sched) : Prop where
  kept : Kept before after
  writes : after.quantumWrites = before.quantumWrites
  holds : ∀ known contents, before.Holds known contents → after.Holds known contents

theorem Scanned.refl (state : Sched) : Scanned state state :=
  ⟨Kept.refl state, rfl, fun _ _ holds => holds⟩

theorem Scanned.trans {before middle after : Sched} (first : Scanned before middle)
    (second : Scanned middle after) : Scanned before after where
  kept := first.kept.trans second.kept
  writes := second.writes.trans first.writes
  holds := fun known contents holds =>
    second.holds known contents (first.holds known contents holds)

theorem setPtrNext_scanned (state : Sched) (name : QueueName) (next : Option Nat) :
    Scanned state (state.setPtrNext name next) where
  kept := setPtrNext_kept state name next
  writes := by cases name <;> rfl
  holds := fun _ _ holds => holds.setPtrNext name next

/-- The state after a reading of the timer. -/
def latched (state : Sched) : Sched :=
  { state with latch := fun reading => state.latch (reading + 1) }

theorem bind_readLatch {rest : Nat → Scheduling α} {returned : α → Sched → Prop}
    {raised : Ending → Prop}
    (tail : Ensures (rest (state.latch 0)) state.latched returned raised) :
    Ensures (kclockReadCnt0Latch >>= rest) state returned raised := tail

theorem latched_scanned (state : Sched) :
    Scanned state state.latched where
  kept := { Kept.refl state with latch := ⟨1, fun _ => rfl⟩ }
  writes := rfl
  holds := fun _ _ holds => holds

/-- The reading of the timer that `chk2` accepts under round robin. -/
def ClockInRange (state : Sched) (reading : Nat) : Prop :=
  90 * timerDiv (state.quantums 0) / 100 < reading ∧ reading ≤ timerDiv (state.quantums 0)

theorem assertEndall_ensures {fosScheduler : Scheduling Unit} {raised : Ending → Prop}
    {condition : Bool} {returned : Unit → Sched → Prop}
    (whenTrue : condition = true → returned () state)
    (whenFalse : condition = false →
      Ensures (panicAll fosScheduler) state (fun _ _ => False) raised) :
    Ensures (assertEndall fosScheduler condition) state returned raised := by
  cases condition with
  | true => exact Ensures.pure (whenTrue rfl)
  | false => exact (whenFalse rfl).mono (fun _ _ impossible => impossible.elim) fun _ holds => holds

/-- What round robin has selected, as far as the checker looks at it. -/
structure Checked (state : Sched) (waiting : List Nat) (next : Option Nat) : Prop where
  represents : Represents state.links (state.queue (.ready 0)) waiting
  few : waiting.length ≤ nenv
  predicted : state.chkstatus ≠ 0 → state.ne = next
  level : state.chkstatus ≠ 0 → state.pl = 0
  absent : ∀ env, next = some env → ∀ other ∈ waiting, state.envId other ≠ state.envId env
  previous : state.chkstatus ≠ 0 → ∀ env, state.pe = some env → some env ≠ next → env ∈ waiting

theorem assertAbsent_ensures {fosScheduler : Scheduling Unit} {raised : Ending → Prop}
    {waiting : List Nat} {envId : BitVec 32}
    (represents : Represents state.links (state.queue (.ready 0)) waiting)
    (few : waiting.length ≤ nenv) (absent : ∀ other ∈ waiting, state.envId other ≠ envId) :
    Ensures (assertAbsent fosScheduler envId [0]) state (fun _ after => Scanned state after)
      raised := by
  refine Ensures.bind (findEnvInQueue_ensures envId represents few) ?_
  rintro found after ⟨isNone, next, rfl⟩
  have notFound : found = none := by
    rw [isNone]
    exact List.find?_eq_none.mpr fun other member => by simpa using absent other member
  subst notFound
  exact setPtrNext_scanned state (.ready 0) next

theorem chk2Next_ensures {fosScheduler : Scheduling Unit} {raised : Ending → Prop}
    {waiting : List Nat} {env : Nat} (roundRobin : state.RoundRobin)
    (represents : Represents state.links (state.queue (.ready 0)) waiting)
    (few : waiting.length ≤ nenv)
    (absent : ∀ other ∈ waiting, state.envId other ≠ state.envId env)
    (clock : ¬state.ClockInRange (state.latch 0) →
      Ensures (panicAll fosScheduler) state.latched (fun _ _ => False) raised) :
    Ensures (chk2Next fosScheduler env) state (fun _ after => Scanned state after) raised := by
  have levels : List.range 1 = [0] := rfl
  refine Ensures.bind_get ?_
  rw [roundRobin.level, roundRobin.oneQueue, levels]
  refine Ensures.ite (fun zero => absurd zero roundRobin.quantum) fun _ => ?_
  refine bind_readLatch ?_
  have ranged : Ensures (assertEndall fosScheduler
      (decide (90 * timerDiv (state.quantums 0) / 100 < state.latch 0) &&
        decide (state.latch 0 ≤ timerDiv (state.quantums 0)))) state.latched
      (fun _ after => after = state.latched) raised := by
    refine assertEndall_ensures (fun _ => rfl) fun fails => clock fun inRange => ?_
    simp [inRange.1, inRange.2] at fails
  refine Ensures.bind ranged ?_
  rintro ⟨⟩ after rfl
  have represented : Represents state.latched.links (state.latched.queue (.ready 0)) waiting :=
    represents
  exact (assertAbsent_ensures represented few absent).mono
    (fun _ after scanned => (latched_scanned state).trans scanned) fun _ holds => holds

theorem chk2Previous_ensures {fosScheduler : Scheduling Unit} {raised : Ending → Prop}
    {waiting : List Nat} {env : Nat} (oneQueue : state.numOfReadyQueues = 1)
    (level : state.pl = 0)
    (represents : Represents state.links (state.queue (.ready 0)) waiting)
    (few : waiting.length ≤ nenv) (member : env ∈ waiting) :
    Ensures (chk2Previous fosScheduler env) state (fun _ after => Scanned state after) raised := by
  have none : (List.range 1).filter (· ≠ 0) = [] := rfl
  refine Ensures.bind_get ?_
  have here : state.previousLevel = 0 := by simp [previousLevel, oneQueue, level]
  rw [here, oneQueue, none]
  refine Ensures.bind (findEnvInQueue_ensures (state.envId env) represents few) ?_
  rintro found after ⟨isFound, next, rfl⟩
  have some : found.isSome = true := by
    rw [isFound, List.find?_isSome]
    exact ⟨env, member, by simp⟩
  rw [some]
  exact setPtrNext_scanned state (.ready 0) next

theorem selectNext_rr (method : state.schedulerMethod = .rr) :
    selectNext state = selectRR state := by
  rcases state with ⟨⟩
  subst method
  rfl

theorem selectNext_levels (method : state.schedulerMethod = .mlfq) :
    selectNext state = fosSchedulerMLFQ state := by
  rcases state with ⟨⟩
  subst method
  rfl

/-- Under round robin only the reading of the timer can make a check fail. -/
theorem chk2_ensures {fosScheduler : Scheduling Unit} {raised : Ending → Prop}
    {waiting : List Nat} {next : Option Nat} (roundRobin : state.RoundRobin)
    (checked : state.Checked waiting next)
    (clock : state.chkstatus ≠ 0 → next ≠ none → ¬state.ClockInRange (state.latch 0) →
      Ensures (panicAll fosScheduler) state.latched (fun _ _ => False) raised) :
    Ensures (chk2 fosScheduler next) state (fun _ after => Scanned state after) raised := by
  refine Ensures.bind_get (Ensures.ite (fun _ => Ensures.pure (Scanned.refl state)) ?_)
  intro active
  rw [checked.predicted active]
  have agreed : Ensures (assertEndall fosScheduler (next == next)) state
      (fun _ after => after = state) raised :=
    assertEndall_ensures (fun _ => rfl) fun fails => by simp at fails
  refine Ensures.bind agreed ?_
  rintro ⟨⟩ after rfl
  have previous : ∀ middle, Scanned after middle → ∀ pe, after.pe = some pe →
      some pe ≠ next → Ensures (chk2Previous fosScheduler pe) middle
        (fun _ final => Scanned after final) raised := by
    intro middle scanned pe ran different
    have held := scanned.holds (· = .ready 0) (fun _ => waiting)
      ⟨fun name equal => equal ▸ checked.represents, fun left right leftIs rightIs differ =>
        absurd (leftIs.trans rightIs.symm) differ⟩
    refine (chk2Previous_ensures (scanned.kept.numOfReadyQueues.trans roundRobin.oneQueue)
      (scanned.kept.pl.trans (checked.level active)) (held.represents _ rfl) checked.few
      (checked.previous active pe ran different)).mono ?_ fun _ holds => holds
    exact fun _ _ further => scanned.trans further
  have rest : ∀ middle, Scanned after middle → ∀ body : Scheduling Unit,
      (after.pe = none → body = pure ()) →
      (∀ pe, after.pe = some pe →
        body = if some pe = next then pure () else chk2Previous fosScheduler pe) →
      Ensures body middle (fun _ final => Scanned after final) raised := by
    intro middle scanned body idle ranBefore
    cases ran : after.pe with
    | none =>
        rw [idle ran]
        exact Ensures.pure scanned
    | some pe =>
        rw [ranBefore pe ran]
        exact Ensures.ite (fun _ => Ensures.pure scanned)
          fun different => previous middle scanned pe ran different
  cases next with
  | none =>
      exact rest after (Scanned.refl after) _ (fun none => by rw [none]) fun pe some => by rw [some]
  | some env =>
      refine Ensures.bind (chk2Next_ensures roundRobin checked.represents checked.few
        (checked.absent env rfl) (clock active (by simp))) ?_
      exact fun _ middle scanned =>
        rest middle scanned _ (fun none => by rw [none]) fun pe some => by rw [some]

/-- The state once round robin has selected the next environment. -/
structure Selected (known : QueueName → Prop) (contents : QueueName → List Nat)
    (before after : Sched) : Prop where
  current : after.curenv = (before.order (contents (.ready 0))).head?
  holds : after.Holds known (Function.update contents (.ready 0)
    (before.order (contents (.ready 0))).tail.reverse)
  roundRobin : after.RoundRobin
  envId : after.envId = before.envId
  envStatus : ∀ env, after.curenv ≠ some env → after.envStatus env = before.envStatus env
  chkstatus : after.chkstatus = before.chkstatus
  quantums : after.quantums = before.quantums
  writes : after.quantumWrites = before.quantumWrites ++ [before.quantums 0]
  latch : ∃ read, ∀ reading, after.latch reading = before.latch (reading + read)

theorem Selected.scanned {middle after : Sched} (selected : Selected known contents state middle)
    (scanned : Scanned middle after) : Selected known contents state after where
  current := scanned.kept.curenv.trans selected.current
  holds := scanned.holds _ _ selected.holds
  roundRobin :=
    ⟨scanned.kept.schedulerMethod.trans selected.roundRobin.method,
      scanned.kept.numOfReadyQueues.trans selected.roundRobin.oneQueue,
      (congrFun scanned.kept.quantums 0).trans_ne selected.roundRobin.quantum,
      scanned.kept.nl.trans selected.roundRobin.level⟩
  envId := scanned.kept.envId.trans selected.envId
  envStatus := by
    intro env other
    rw [scanned.kept.envStatus]
    exact selected.envStatus env (scanned.kept.curenv ▸ other)
  chkstatus := scanned.kept.chkstatus.trans selected.chkstatus
  quantums := scanned.kept.quantums.trans selected.quantums
  writes := scanned.writes.trans selected.writes
  latch := by
    rcases selected.latch with ⟨firstRead, firstLatch⟩
    rcases scanned.kept.latch with ⟨secondRead, secondLatch⟩
    refine ⟨secondRead + firstRead, fun reading => ?_⟩
    rw [secondLatch, firstLatch, Nat.add_assoc]

/-- The checker only changes its own variables. -/
theorem chk1_shape {ready : List Nat} (roundRobin : state.RoundRobin)
    (represents : Represents state.links (state.queue (.ready 0)) ready) :
    ∃ pe ne pl, state.chk1 = { state with pe, ne, pl, nl := 0 } ∧
      (state.chkstatus ≠ 0 →
        pe = state.curenv ∧ ne = (state.order ready).head? ∧ pl = 0) := by
  by_cases active : state.chkstatus = 0
  · refine ⟨state.pe, state.ne, state.pl, ?_, fun other => absurd active other⟩
    rw [chk1, if_pos active, ← roundRobin.level]
  · exact ⟨_, _, _, chk1_roundRobin roundRobin represents active, fun _ => ⟨rfl, rfl, rfl⟩⟩

/-- The environment that ran before waits again or runs again. -/
theorem mem_order_tail {ready : List Nat} {env : Nat} (ran : state.curenv = some env)
    (different : some env ≠ (state.order ready).head?) :
    env ∈ (state.order ready).tail.reverse := by
  have member : env ∈ state.order ready := by simp [order, ran]
  cases equal : state.order ready with
  | nil => simp [equal] at member
  | cons head rest =>
      rw [equal] at member different
      rcases List.mem_cons.mp member with rfl | inRest
      · exact absurd rfl different
      · simpa using inRest

theorem order_distinct {ready : List Nat} {env : Nat}
    (distinct : ((state.order ready).map state.envId).Nodup)
    (first : (state.order ready).head? = some env) :
    ∀ other ∈ (state.order ready).tail, state.envId other ≠ state.envId env := by
  cases equal : state.order ready with
  | nil => simp
  | cons head rest =>
      rw [equal, List.map_cons, List.nodup_cons] at distinct
      rw [equal, List.head?_cons, Option.some.injEq] at first
      subst first
      intro other member same
      exact distinct.1 (same ▸ List.mem_map_of_mem member)

theorem fosScheduler_roundRobin {raised : Ending → Prop} (depth : Nat)
    (roundRobin : state.RoundRobin) (holds : state.Holds known contents)
    (isKnown : known (.ready 0))
    (fresh : ∀ env, state.curenv = some env → ∀ other, known other → env ∉ contents other)
    (few : (state.order (contents (.ready 0))).length ≤ nenv)
    (distinct : ((state.order (contents (.ready 0))).map state.envId).Nodup)
    (dispatched : ∀ after, Selected known contents state after →
      (∀ env, after.curenv = some env → after.envStatus env = .runnable) →
      (after.schedulerStatus = .stopped → after.curenv = none) → raised (.switched after))
    (clock : ∀ failing reading, Selected known contents state failing →
      failing.envStatus = state.envStatus → failing.curenv ≠ none → state.chkstatus ≠ 0 →
      ¬state.ClockInRange (state.latch reading) →
      Ensures (panicAll (fosScheduler depth)) failing (fun _ _ => False) raised) :
    Ensures (fosScheduler (depth + 1)) state (fun _ _ => False) raised := by
  rcases chk1_shape roundRobin (holds.represents _ isKnown) with ⟨pe, ne, pl, shape, facts⟩
  refine Ensures.bind_modify (Ensures.bind_modify ?_)
  rw [shape]
  let started : Sched := { state with pe, ne, pl, nl := 0, schedulerStatus := .started }
  have startedRobin : started.RoundRobin :=
    ⟨roundRobin.method, roundRobin.oneQueue, roundRobin.quantum, rfl⟩
  have selected : Ensures selectNext started (fun next after =>
      next = (state.order (contents (.ready 0))).head? ∧ Kept started after ∧
      after.quantumWrites = state.quantumWrites ++ [state.quantums 0] ∧
      after.Holds known (Function.update contents (.ready 0)
        (state.order (contents (.ready 0))).tail.reverse)) raised := by
    refine Ensures.bind_get ?_
    rw [startedRobin.method]
    exact (selectRR_ensures startedRobin holds isKnown fresh few).mono
      (fun _ _ ensured => ensured) fun _ impossible => impossible.elim
  refine Ensures.bind selected ?_
  rintro next after ⟨isFirst, kept, writes, held⟩
  refine Ensures.bind_get (Ensures.bind_modify ?_)
  have choice : Selected known contents state (after.setCurenv next) :=
    { current := isFirst
      holds := held
      roundRobin :=
        ⟨kept.schedulerMethod.trans roundRobin.method,
          kept.numOfReadyQueues.trans roundRobin.oneQueue,
          (congrFun kept.quantums 0).trans_ne roundRobin.quantum, kept.nl⟩
      envId := kept.envId
      envStatus := fun env _ => congrFun kept.envStatus env
      chkstatus := kept.chkstatus
      quantums := kept.quantums
      writes
      latch := kept.latch }
  have checked : (after.setCurenv next).Checked
      (state.order (contents (.ready 0))).tail.reverse next := by
    have represents := held.represents _ isKnown
    rw [Function.update_self] at represents
    refine ⟨represents, ?_, ?_, ?_, ?_, ?_⟩
    · rw [List.length_reverse, List.length_tail]
      omega
    · intro active
      exact kept.ne.trans ((facts (kept.chkstatus ▸ active)).2.1.trans isFirst.symm)
    · intro active
      exact kept.pl.trans (facts (kept.chkstatus ▸ active)).2.2
    · intro env isNext other member
      rw [isNext] at isFirst
      rw [choice.envId]
      exact order_distinct distinct isFirst.symm other (List.mem_reverse.mp member)
    · intro active env ran different
      have running : state.curenv = some env :=
        (facts (kept.chkstatus ▸ active)).1.symm.trans (kept.pe.symm.trans ran)
      exact mem_order_tail running (isFirst ▸ different)
  have check : Ensures (chk2 (fosScheduler depth) next) (after.setCurenv next)
      (fun _ final => Selected known contents state final ∧ final.schedulerStatus = .started)
      raised := by
    refine (chk2_ensures choice.roundRobin checked ?_).mono
      (fun _ _ scanned => ⟨choice.scanned scanned,
        scanned.kept.schedulerStatus.trans kept.schedulerStatus⟩) fun _ ensured => ensured
    intro active some outOfRange
    rcases kept.latch with ⟨read, latch⟩
    refine clock _ (0 + read) (choice.scanned (latched_scanned _)) kept.envStatus some
      (kept.chkstatus ▸ active) fun inRange => outOfRange ?_
    change after.ClockInRange (after.latch 0)
    rw [latch, ClockInRange, kept.quantums]
    exact inRange
  refine Ensures.bind check ?_
  rintro ⟨⟩ final ⟨selection, begun⟩
  refine Ensures.bind_modify ?_
  have current := selection.current
  rw [← isFirst] at current
  cases next with
  | none =>
      refine dispatched _ ⟨isFirst, selection.holds, { selection.roundRobin with },
        selection.envId, ?_, selection.chkstatus, selection.quantums, selection.writes,
        selection.latch⟩ ?_ fun _ => rfl
      · intro env _
        exact selection.envStatus env (by simp [current])
      · intro env impossible
        cases impossible
  | some env =>
      refine dispatched _ ⟨isFirst, selection.holds, { selection.roundRobin with },
        selection.envId, ?_, selection.chkstatus, selection.quantums, selection.writes,
        selection.latch⟩ ?_ fun stopped => ?_
      · intro other different
        have apart : other ≠ env := fun equal => different (equal ▸ rfl)
        refine Eq.trans ?_ (selection.envStatus other (by simp [current, apart.symm]))
        exact Function.update_of_ne apart _ _
      · intro other isCurrent
        have same : env = other := Option.some.inj isCurrent
        subst same
        exact Function.update_self _ _ _
      · exact absurd (begun.symm.trans stopped) (by simp)

end Selection

end Sched

end FosKernel
