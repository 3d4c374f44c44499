import FosKernel.Properties.EnvironmentIds
import FosKernel.Refinement.EnvironmentQueues
import Mathlib.Data.List.Rotate

/-! # Round robin

Successive invocations of the scheduler serve the environments in cyclic order, as its
checker predicts, and no run of the scheduler loses or doubles an environment.
-/

namespace FosKernel.RoundRobin

open LinkedList

section Order

/-- A ready queue of distinct environments, and a running environment outside it. -/
structure Queued (state : Sched) (ready : List Nat) : Prop where
  roundRobin : state.RoundRobin
  represents : Represents state.links (state.queue (.ready 0)) ready
  current : ∀ env, state.curenv = some env → env ∉ ready
  slots : ∀ env ∈ state.order ready, env < nenv
  ids : ((state.order ready).map state.envId).Nodup

/-- Counter 0 has just been loaded with the quantum whenever it is read. -/
def Accurate (state : Sched) : Prop :=
  ∀ reading, state.ClockInRange (state.latch reading)

/-- What the checker would find after the selection: the predicted environment, which is in
no ready queue, and the one that ran before in exactly the predicted queue. -/
structure Agrees (state : Sched) : Prop where
  selection : ∃ next selected, selectNext state.chk1 = .ok (next, selected) ∧
    next = state.chk1.ne ∧
    (∀ env, next = some env → ∀ level < state.numOfReadyQueues,
      Ensures (findEnvInQueue (.ready level) (state.envId env)) selected
        (fun found _ => found = none) fun _ => False) ∧
    ∀ env, state.curenv = some env → some env ≠ next →
      (Ensures (findEnvInQueue (.ready state.chk1.previousLevel) (state.envId env)) selected
        (fun found _ => found = some env) fun _ => False) ∧
      ∀ level < state.numOfReadyQueues, level ≠ state.chk1.previousLevel →
        Ensures (findEnvInQueue (.ready level) (state.envId env)) selected
          (fun found _ => found = none) fun _ => False

/-- The environments that successive invocations dispatch, with the last state. -/
def invocations (depth : Nat) : Nat → Sched → Option (List (Option Nat) × Sched)
  | 0, state => some ([], state)
  | count + 1, state =>
      match fosScheduler depth state with
      | .error (.switched after) =>
          (invocations depth count after).map fun rest => (after.curenv :: rest.1, rest.2)
      | _ => none

variable {state : Sched} {ready : List Nat}

theorem Queued.nodup (queued : Queued state ready) : (state.order ready).Nodup :=
  List.Nodup.of_map _ queued.ids

theorem Queued.few (queued : Queued state ready) : (state.order ready).length ≤ nenv := by
  have within : state.order ready ⊆ List.range nenv := fun env member =>
    List.mem_range.mpr (queued.slots env member)
  have bound := (queued.nodup.subperm within).length_le
  rwa [List.length_range] at bound

theorem Queued.holds (queued : Queued state ready) :
    state.Holds (· = .ready 0) fun _ => ready where
  represents := by
    rintro name rfl
    exact queued.represents
  apart := by
    rintro left right rfl rfl different
    exact absurd rfl different

theorem Queued.fresh (queued : Queued state ready) (env : Nat) (running : state.curenv = some env)
    (other : QueueName) (_ : other = .ready 0) : env ∉ ready :=
  queued.current env running

/-- The order after the first environment has been dispatched. -/
theorem order_selected {after : Sched} (current : after.curenv = (state.order ready).head?) :
    after.order (state.order ready).tail.reverse = (state.order ready).rotate 1 := by
  rw [Sched.order, List.reverse_reverse, current]
  cases state.order ready with
  | nil => rfl
  | cons env rest => simp

theorem Queued.selected (queued : Queued state ready) {after : Sched}
    (selected : Sched.Selected (· = .ready 0) (fun _ => ready) state after) :
    Queued after (state.order ready).tail.reverse := by
  have represents := selected.holds.represents _ rfl
  rw [Function.update_self] at represents
  have rotated := order_selected selected.current
  refine ⟨selected.roundRobin, represents, ?_, ?_, ?_⟩
  · intro env running member
    rw [selected.current] at running
    have nodup := queued.nodup
    cases equal : state.order ready with
    | nil => simp [equal] at running
    | cons head rest =>
        rw [equal] at running member nodup
        have same : head = env := by simpa using running
        exact (List.nodup_cons.mp nodup).1 (same ▸ List.mem_reverse.mp member)
  · rw [rotated]
    exact fun env member => queued.slots env (List.mem_rotate.mp member)
  · rw [rotated, selected.envId, List.map_rotate]
    exact List.nodup_rotate.mpr queued.ids

/-- One invocation dispatches the first environment of the order and turns the order. -/
theorem Queued.invoke (queued : Queued state ready) (accurate : Accurate state) (depth : Nat) :
    ∃ after, fosScheduler (depth + 1) state = .error (.switched after) ∧
      after.curenv = (state.order ready).head? ∧
      Queued after (state.order ready).tail.reverse ∧ Accurate after ∧
      after.chkstatus = state.chkstatus := by
  have ensured : Ensures (fosScheduler (depth + 1)) state (fun _ _ => False) fun ending =>
      ∃ after, ending = .switched after ∧ after.curenv = (state.order ready).head? ∧
        Queued after (state.order ready).tail.reverse ∧ Accurate after ∧
        after.chkstatus = state.chkstatus := by
    refine Sched.fosScheduler_roundRobin depth queued.roundRobin queued.holds rfl queued.fresh
      queued.few queued.ids ?_ ?_
    · intro after selected _ _
      refine ⟨after, rfl, selected.current, queued.selected selected, ?_,
        selected.chkstatus⟩
      intro reading
      rcases selected.latch with ⟨read, latch⟩
      rw [Sched.ClockInRange, selected.quantums, latch]
      exact accurate _
    · intro failing reading _ _ _ _ outOfRange
      exact absurd (accurate reading) outOfRange
  rcases ensured.raises with ⟨_, equal, after, rfl, holds⟩
  exact ⟨after, equal, holds⟩

/-- The dispatches of a cyclic service. -/
def cyclic (order : List Nat) (count : Nat) : List (Option Nat) :=
  (List.range count).map fun turn => order[turn % order.length]?

theorem cyclic_succ (order : List Nat) (count : Nat) :
    cyclic order (count + 1) = order.head? :: cyclic (order.rotate 1) count := by
  rw [cyclic, List.range_succ_eq_map, List.map_cons, List.map_map, Nat.zero_mod,
    List.head?_eq_getElem?]
  congr 1
  apply List.map_congr_left
  intro turn _
  rw [Function.comp_apply, List.length_rotate]
  cases order with
  | nil => rfl
  | cons env rest =>
      rw [List.getElem?_rotate (Nat.mod_lt _ (by simp)), Nat.mod_add_mod]

/-- In any round each environment has one turn. -/
theorem cyclic_round (order : List Nat) {start count : Nat} (bound : start + order.length ≤ count) :
    ((cyclic order count).drop start).take order.length = (order.rotate start).map some := by
  apply List.ext_getElem
  · simp [cyclic]
    omega
  · intro turn inTurns inOrder
    have inside : turn < order.length := by simpa using inOrder
    have positive : 0 < order.length := by omega
    simp [cyclic, List.getElem_rotate, Nat.add_comm start turn, Nat.mod_lt _ positive]

theorem Queued.invocations (queued : Queued state ready) (accurate : Accurate state)
    (depth count : Nat) :
    ∃ final waiting, RoundRobin.invocations (depth + 1) count state =
        some (cyclic (state.order ready) count, final) ∧
      Queued final waiting ∧ final.chkstatus = state.chkstatus := by
  induction count generalizing state ready with
  | zero => exact ⟨state, ready, rfl, queued, rfl⟩
  | succ count induction =>
      rcases queued.invoke accurate depth with ⟨after, switched, current, later, still, same⟩
      rcases induction later still with ⟨final, waiting, rest, last, checker⟩
      refine ⟨final, waiting, ?_, last, checker.trans same⟩
      rw [RoundRobin.invocations, switched]
      simp only [rest, Option.map_some, cyclic_succ, current, order_selected current]

theorem find_absent {waiting : List Nat} {env : Nat} {ids : Nat → BitVec 32}
    (absent : ∀ other ∈ waiting, ids other ≠ ids env) :
    waiting.find? (fun other => ids other = ids env) = none :=
  List.find?_eq_none.mpr fun other member => by simpa using absent other member

theorem find_unique {waiting : List Nat} {env : Nat} {ids : Nat → BitVec 32}
    (member : env ∈ waiting) (unique : ∀ other ∈ waiting, ids other = ids env → other = env) :
    waiting.find? (fun other => ids other = ids env) = some env := by
  cases found : waiting.find? (fun other => ids other = ids env) with
  | none => simpa using List.find?_eq_none.mp found env member
  | some other =>
      have same : ids other = ids env := by simpa using List.find?_some found
      rw [unique other (List.mem_of_find?_eq_some found) same]

theorem Queued.agrees (queued : Queued state ready) (active : state.chkstatus ≠ 0) :
    Agrees state := by
  rcases Sched.chk1_shape queued.roundRobin queued.represents with ⟨pe, ne, pl, shape, facts⟩
  rcases facts active with ⟨rfl, rfl, rfl⟩
  have level : state.chk1.previousLevel = 0 := by
    simp [shape, Sched.previousLevel, queued.roundRobin.oneQueue]
  have checkedRobin : state.chk1.RoundRobin := by
    rw [shape]
    exact ⟨queued.roundRobin.method, queued.roundRobin.oneQueue, queued.roundRobin.quantum, rfl⟩
  have holds : state.chk1.Holds (· = .ready 0) fun _ => ready := by
    rw [shape]
    exact queued.holds
  have order : state.chk1.order ready = state.order ready := by
    rw [shape]
    rfl
  have selection := Sched.selectRR_ensures checkedRobin holds rfl
    (by
      rw [shape]
      exact queued.fresh) (by
      rw [order]
      exact queued.few)
  rcases selection.returns with ⟨next, selected, returned, isFirst, kept, -, held⟩
  have represents := held.represents _ rfl
  rw [Function.update_self, order] at represents
  rw [order] at isFirst
  have ids : selected.envId = state.envId := kept.envId.trans (by rw [shape])
  have few : (state.order ready).tail.reverse.length ≤ nenv := by
    rw [List.length_reverse, List.length_tail]
    have := queued.few
    omega
  have finds : ∀ env, Ensures (findEnvInQueue (.ready 0) (state.envId env)) selected
      (fun found _ => found =
        (state.order ready).tail.reverse.find? fun other => state.envId other = state.envId env)
      fun _ => False := by
    intro env
    refine (findEnvInQueue_ensures (state.envId env) represents few).mono ?_
      fun _ impossible => impossible
    rintro found after ⟨equal, -⟩
    rw [ids] at equal
    exact equal
  refine ⟨next, selected, ?_, ?_, ?_, ?_⟩
  · rw [Sched.selectNext_rr checkedRobin.method]
    exact returned
  · rw [isFirst, shape]
  · intro env isNext level bound
    rw [queued.roundRobin.oneQueue, Nat.lt_one_iff] at bound
    subst bound
    have absent := Sched.order_distinct queued.ids (isFirst.symm.trans isNext)
    refine (finds env).mono (fun _ _ found => found.trans (find_absent ?_))
      fun _ impossible => impossible
    exact fun other member => absent other (List.mem_reverse.mp member)
  · intro env running different
    have member := Sched.mem_order_tail running (isFirst ▸ different)
    have inOrder : ∀ other ∈ (state.order ready).tail.reverse, other ∈ state.order ready :=
      fun other inTail => List.mem_of_mem_tail (List.mem_reverse.mp inTail)
    have unique : ∀ other ∈ (state.order ready).tail.reverse,
        state.envId other = state.envId env → other = env := fun other inTail same =>
      List.inj_on_of_nodup_map queued.ids (inOrder other inTail) (inOrder env member) same
    rw [level]
    refine ⟨(finds env).mono (fun _ _ found => found.trans (find_unique member unique))
      fun _ impossible => impossible, ?_⟩
    intro other bound apart
    rw [queued.roundRobin.oneQueue, Nat.lt_one_iff] at bound
    exact absurd bound apart

/-- Round robin serves in cyclic order, the oldest first and the preempted environment last,
and its checker agrees before every invocation. -/
theorem round_robin_cyclic (queued : Queued state ready) (active : state.chkstatus ≠ 0)
    (accurate : Accurate state) (depth count : Nat) :
    ∃ final, invocations (depth + 1) count state =
        some (cyclic (state.order ready) count, final) ∧
      (∀ start, start + (state.order ready).length ≤ count →
        (((cyclic (state.order ready) count).drop start).take (state.order ready).length).Perm
          ((state.order ready).map some)) ∧
      Agrees final := by
  rcases queued.invocations accurate depth count with ⟨final, waiting, trace, last, checker⟩
  refine ⟨final, trace, ?_, last.agrees (checker ▸ active)⟩
  intro start bound
  rw [cyclic_round _ bound]
  exact (List.rotate_perm _ _).map some

end Order

/-- One environment runs and two wait. -/
def sampleQueue : Sched :=
  let table : EnvTable := { EnvTable.zero with envId := EnvironmentIds.slotId, curenv := some 0 }
  let empty : Sched :=
    { toEnvTable := table
      envNewQueue := ⟨none, none, none, 0⟩
      envExitQueue := ⟨none, none, none, 0⟩
      envReadyQueues := fun _ => ⟨none, none, none, 0⟩
      numOfReadyQueues := 1
      quantums := fun _ => clockIntervalInMs
      schedulerMethod := .rr
      schedulerStatus := .started
      quantumWrites := []
      latch := fun _ => timerDiv clockIntervalInMs
      freshQueues := fun _ _ => ⟨none, none, none, 0⟩
      chkstatus := 1
      pe := none
      ne := none
      pl := 0
      nl := 0 }
  (empty.enqueue (.ready 0) (some 1)).enqueue (.ready 0) (some 2)

theorem sampleQueue_queued : Queued sampleQueue [2, 1] where
  roundRobin := ⟨rfl, rfl, by decide, rfl⟩
  represents := by
    refine ⟨?_, by decide, rfl, rfl, rfl⟩
    intro position env found
    match position with
    | 0 =>
        cases found
        exact ⟨rfl, rfl⟩
    | 1 =>
        cases found
        exact ⟨rfl, rfl⟩
    | _ + 2 => cases found
  current := by
    rintro env ⟨⟩
    decide
  slots := by decide
  ids := by decide

theorem round_robin_cyclic_three_environments :
    ∃ final, invocations 1 4 sampleQueue = some ([some 1, some 2, some 0, some 1], final) ∧
      Agrees final := by
  have inRange : 90 * timerDiv clockIntervalInMs / 100 < timerDiv clockIntervalInMs := by decide
  have accurate : Accurate sampleQueue := fun _ => ⟨inRange, le_refl _⟩
  rcases round_robin_cyclic sampleQueue_queued (by decide) accurate 0 4 with
    ⟨final, trace, -, agrees⟩
  exact ⟨final, trace, agrees⟩

section Places

/-- The queues that round robin uses. -/
def InUse : QueueName → Prop
  | .ready level => level = 0
  | _ => True

/-- Every slot is in one of the queues or among those `aside`, which a function of the
scheduler holds itself. -/
structure Arranged (state : Sched) (contents : QueueName → List Nat) (aside : List Nat) :
    Prop where
  holds : state.Holds InUse contents
  slots : ∀ name, InUse name → ∀ env ∈ contents name, env < nenv
  outside : ∀ env ∈ aside, env < nenv ∧ ∀ name, InUse name → env ∉ contents name
  distinct : aside.Nodup
  everyone : ∀ env, env < nenv → env ∈ aside ∨ ∃ name, InUse name ∧ env ∈ contents name

/-- The free list has the slots without an environment. -/
structure Placed (state : Sched) (contents : QueueName → List Nat) (aside : List Nat) :
    Prop extends Arranged state contents aside where
  freed : ∀ env ∈ contents .free, state.envStatus env = .free ∧ state.envId env = 0
  live : ∀ env, env < nenv → env ∉ contents .free →
    state.envStatus env ≠ .free ∧ state.envId env = EnvironmentIds.slotId env

variable {state : Sched} {contents : QueueName → List Nat} {aside : List Nat} {env : Nat}

theorem Arranged.few (arranged : Arranged state contents aside) {name : QueueName}
    (inUse : InUse name) : (contents name).length ≤ nenv := by
  have within : contents name ⊆ List.range nenv := fun slot member =>
    List.mem_range.mpr (arranged.slots name inUse slot member)
  have bound := ((arranged.holds.represents name inUse).nodup.subperm within).length_le
  rwa [List.length_range] at bound

/-- The part of a placement that does not concern status and id. -/
theorem Placed.same {after : Sched} (placed : Placed state contents aside)
    (holds : after.Holds InUse contents) (envStatus : after.envStatus = state.envStatus)
    (envId : after.envId = state.envId) : Placed after contents aside where
  holds
  slots := placed.slots
  outside := placed.outside
  distinct := placed.distinct
  everyone := placed.everyone
  freed := by
    rw [envStatus, envId]
    exact placed.freed
  live := by
    rw [envStatus, envId]
    exact placed.live

theorem Placed.setPtrNext (placed : Placed state contents aside) (name : QueueName)
    (next : Option Nat) : Placed (state.setPtrNext name next) contents aside :=
  placed.same (placed.holds.setPtrNext name next)
    (Sched.setPtrNext_kept state name next).envStatus (Sched.setPtrNext_kept state name next).envId

theorem Placed.setEnvStatus (placed : Placed state contents aside) {status : EnvStatus}
    (member : env ∈ aside) (notFree : status ≠ .free) :
    Placed (state.setEnvStatus env status) contents aside where
  holds := placed.holds
  slots := placed.slots
  outside := placed.outside
  distinct := placed.distinct
  everyone := placed.everyone
  freed := by
    intro other inFree
    have different : other ≠ env := by
      rintro rfl
      exact (placed.outside other member).2 .free trivial inFree
    refine ⟨?_, (placed.freed other inFree).2⟩
    exact (Function.update_of_ne different _ _).trans (placed.freed other inFree).1
  live := by
    intro other bound notListed
    refine ⟨?_, (placed.live other bound notListed).2⟩
    by_cases same : other = env
    · subst same
      exact (Function.update_self _ _ _).trans_ne notFree
    · exact (Function.update_of_ne same _ _).trans_ne (placed.live other bound notListed).1

/-- An environment is taken out of a queue. -/
theorem Arranged.removeFromQueue (placed : Arranged state contents aside) {name : QueueName}
    (inUse : InUse name) (member : env ∈ contents name) :
    Arranged (state.removeFromQueue name env)
      (Function.update contents name ((contents name).erase env)) (env :: aside) := by
  have few := placed.few inUse
  have small : nenv < 2 ^ 32 := by decide
  have nodup := (placed.holds.represents name inUse).nodup
  refine ⟨placed.holds.removeFromQueue inUse member (by omega), ?_, ?_, ?_, ?_⟩
  · intro other otherInUse slot inOther
    by_cases same : other = name
    · subst same
      rw [Function.update_self] at inOther
      exact placed.slots other otherInUse slot (List.mem_of_mem_erase inOther)
    · rw [Function.update_of_ne same] at inOther
      exact placed.slots other otherInUse slot inOther
  · intro slot isAside
    rcases List.mem_cons.mp isAside with rfl | before
    · refine ⟨placed.slots name inUse slot member, fun other otherInUse => ?_⟩
      by_cases same : other = name
      · subst same
        rw [Function.update_self]
        exact nodup.not_mem_erase
      · rw [Function.update_of_ne same]
        exact placed.holds.apart name other inUse otherInUse (Ne.symm same) slot member
    · refine ⟨(placed.outside slot before).1, fun other otherInUse inOther => ?_⟩
      by_cases same : other = name
      · subst same
        rw [Function.update_self] at inOther
        exact (placed.outside slot before).2 other otherInUse (List.mem_of_mem_erase inOther)
      · rw [Function.update_of_ne same] at inOther
        exact (placed.outside slot before).2 other otherInUse inOther
  · rw [List.nodup_cons]
    exact ⟨fun isAside => (placed.outside env isAside).2 name inUse member, placed.distinct⟩
  · intro slot bound
    rcases placed.everyone slot bound with isAside | ⟨other, otherInUse, inOther⟩
    · exact .inl (List.mem_cons_of_mem _ isAside)
    · by_cases same : slot = env
      · exact .inl (by simp [same])
      · refine .inr ⟨other, otherInUse, ?_⟩
        by_cases here : other = name
        · subst here
          rw [Function.update_self]
          exact (List.mem_erase_of_ne same).mpr inOther
        · rw [Function.update_of_ne here]
          exact inOther

theorem Placed.removeFromQueue (placed : Placed state contents aside) {name : QueueName}
    (inUse : InUse name) (notFree : name ≠ .free) (member : env ∈ contents name) :
    Placed (state.removeFromQueue name env)
      (Function.update contents name ((contents name).erase env)) (env :: aside) := by
  have kept := Sched.removeFromQueue_kept state name env
  have freeSame : Function.update contents name ((contents name).erase env) .free =
      contents .free := Function.update_of_ne notFree.symm _ _
  refine ⟨placed.toArranged.removeFromQueue inUse member, ?_, ?_⟩
  · rw [freeSame, kept.envStatus, kept.envId]
    exact placed.freed
  · rw [freeSame, kept.envStatus, kept.envId]
    exact placed.live

/-- An environment that was aside is put into a queue. -/
theorem Placed.enqueue (placed : Placed state contents (env :: aside)) {name : QueueName}
    (inUse : InUse name) (notFree : name ≠ .free) :
    Placed (state.enqueue name (some env))
      (Function.update contents name (env :: contents name)) aside := by
  have few := placed.few inUse
  have small : nenv + 1 < 2 ^ 32 := by decide
  have kept := Sched.enqueue_kept state name (some env)
  have own := placed.outside env List.mem_cons_self
  have distinct := List.nodup_cons.mp placed.distinct
  have freeSame : Function.update contents name (env :: contents name) .free =
      contents .free := Function.update_of_ne notFree.symm _ _
  refine ⟨⟨placed.holds.enqueue inUse (some env) ?_ (by omega), ?_, ?_, distinct.2, ?_⟩, ?_, ?_⟩
  · rintro value ⟨⟩
    exact own.2
  · intro other otherInUse slot inOther
    by_cases same : other = name
    · subst same
      rw [Function.update_self] at inOther
      rcases List.mem_cons.mp inOther with rfl | before
      · exact own.1
      · exact placed.slots other otherInUse slot before
    · rw [Function.update_of_ne same] at inOther
      exact placed.slots other otherInUse slot inOther
  · intro slot isAside
    have before := placed.outside slot (List.mem_cons_of_mem _ isAside)
    refine ⟨before.1, fun other otherInUse inOther => ?_⟩
    by_cases same : other = name
    · subst same
      rw [Function.update_self] at inOther
      rcases List.mem_cons.mp inOther with rfl | inside
      · exact distinct.1 isAside
      · exact before.2 other otherInUse inside
    · rw [Function.update_of_ne same] at inOther
      exact before.2 other otherInUse inOther
  · intro slot bound
    rcases placed.everyone slot bound with isAside | ⟨other, otherInUse, inOther⟩
    · rcases List.mem_cons.mp isAside with rfl | before
      · refine .inr ⟨name, inUse, ?_⟩
        rw [Function.update_self]
        exact List.mem_cons_self
      · exact .inl before
    · refine .inr ⟨other, otherInUse, ?_⟩
      by_cases same : other = name
      · subst same
        rw [Function.update_self]
        exact List.mem_cons_of_mem _ inOther
      · rw [Function.update_of_ne same]
        exact inOther
  · rw [freeSame, kept.envStatus, kept.envId]
    exact placed.freed
  · rw [freeSame, kept.envStatus, kept.envId]
    exact placed.live

theorem Placed.schedInsertExit (placed : Placed state contents (env :: aside)) :
    Placed (state.schedInsertExit (some env))
      (Function.update contents .exit (env :: contents .exit)) aside :=
  (placed.setEnvStatus List.mem_cons_self (by simp)).enqueue trivial (by simp)

theorem Placed.schedInsertReady (placed : Placed state contents (env :: aside)) :
    Placed (state.schedInsertReady env)
      (Function.update contents (.ready 0) (env :: contents (.ready 0))) aside :=
  (placed.setEnvStatus List.mem_cons_self (by simp)).enqueue rfl (by simp)

theorem Placed.schedInsertNew (placed : Placed state contents (env :: aside)) :
    Placed (state.schedInsertNew env)
      (Function.update contents .new (env :: contents .new)) aside :=
  (placed.setEnvStatus List.mem_cons_self (by simp)).enqueue trivial (by simp)

theorem Placed.schedRemoveNew (placed : Placed state contents aside)
    (member : env ∈ contents .new) :
    Placed (state.schedRemoveNew env)
      (Function.update contents .new ((contents .new).erase env)) (env :: aside) := by
  have removed : Placed (state.removeFromQueue .new env)
      (Function.update contents .new ((contents .new).erase env)) (env :: aside) :=
    placed.removeFromQueue trivial (by simp) member
  exact removed.setEnvStatus List.mem_cons_self (by simp)

/-! ## The scheduler -/

/-- The state between two calls: the running environment is the one that is in no queue. -/
structure Good (state : Sched) (contents : QueueName → List Nat) : Prop where
  roundRobin : state.RoundRobin
  placed : Placed state contents state.curenv.toList
  running : ∀ env, state.curenv = some env → state.envStatus env = .runnable

/-- A good state in which no environment has left the exit queue. -/
def Settled (exited : List Nat) (after : Sched) : Prop :=
  ∃ contents, Good after contents ∧ exited ⊆ contents .exit

/-- The kernel goes on in such a state. -/
def Settles (exited : List Nat) (ending : Ending) : Prop :=
  ∃ after, ending = .switched after ∧ Settled exited after

theorem Placed.order_slots (placed : Placed state contents state.curenv.toList) :
    ∀ env ∈ state.order (contents (.ready 0)), env < nenv ∧ env ∉ contents .free := by
  intro env member
  rcases List.mem_append.mp member with waiting | isCurrent
  · have inReady := List.mem_reverse.mp waiting
    exact ⟨placed.slots (.ready 0) rfl env inReady,
      placed.holds.apart (.ready 0) .free rfl trivial (by simp) env inReady⟩
  · have own := placed.outside env isCurrent
    exact ⟨own.1, own.2 .free trivial⟩

theorem Placed.order_nodup (placed : Placed state contents state.curenv.toList) :
    (state.order (contents (.ready 0))).Nodup := by
  rw [Sched.order, List.nodup_append]
  refine ⟨List.nodup_reverse.mpr (placed.holds.represents (.ready 0) rfl).nodup,
    placed.distinct, ?_⟩
  rintro waiting inReady current isCurrent rfl
  exact (placed.outside waiting isCurrent).2 (.ready 0) rfl (List.mem_reverse.mp inReady)

theorem Placed.order_ids (placed : Placed state contents state.curenv.toList) :
    ((state.order (contents (.ready 0))).map state.envId).Nodup := by
  refine placed.order_nodup.map_on ?_
  intro left leftIn right rightIn equal
  have leftSlot := placed.order_slots left leftIn
  have rightSlot := placed.order_slots right rightIn
  rw [(placed.live left leftSlot.1 leftSlot.2).2,
    (placed.live right rightSlot.1 rightSlot.2).2] at equal
  exact EnvironmentIds.slotId_inj leftSlot.1 rightSlot.1 equal

theorem Placed.order_few (placed : Placed state contents state.curenv.toList) :
    (state.order (contents (.ready 0))).length ≤ nenv := by
  have within : state.order (contents (.ready 0)) ⊆ List.range nenv := fun env member =>
    List.mem_range.mpr (placed.order_slots env member).1
  have bound := (placed.order_nodup.subperm within).length_le
  rwa [List.length_range] at bound

/-- Outside the free list and the ready queue nothing overlaps with the order. -/
theorem Placed.order_apart (placed : Placed state contents state.curenv.toList)
    {name : QueueName} (inUse : InUse name) (other : name ≠ .ready 0) :
    ∀ env ∈ state.order (contents (.ready 0)), env ∉ contents name := by
  intro env member
  rcases List.mem_append.mp member with waiting | isCurrent
  · exact placed.holds.apart (.ready 0) name rfl inUse other.symm env
      (List.mem_reverse.mp waiting)
  · exact (placed.outside env isCurrent).2 name inUse

theorem mem_order_iff {ready : List Nat} :
    env ∈ state.order ready ↔
      (state.order ready).head? = some env ∨ env ∈ (state.order ready).tail.reverse := by
  cases state.order ready with
  | nil => simp
  | cons head rest => simp [eq_comm]

/-- Selection hands the first environment of the order over. -/
theorem Placed.selected (placed : Placed state contents state.curenv.toList) {after : Sched}
    (selected : Sched.Selected InUse contents state after)
    (notFree : ∀ env, after.curenv = some env → after.envStatus env ≠ .free) :
    Placed after (Function.update contents (.ready 0)
      (state.order (contents (.ready 0))).tail.reverse) after.curenv.toList := by
  have current : ∀ env, env ∈ after.curenv.toList ↔
      (state.order (contents (.ready 0))).head? = some env := by
    intro env
    rw [Option.mem_toList, selected.current]
  have freeSame : Function.update contents (.ready 0)
      (state.order (contents (.ready 0))).tail.reverse .free = contents .free :=
    Function.update_of_ne (by simp) _ _
  refine ⟨⟨selected.holds, ?_, ?_, ?_, ?_⟩, ?_, ?_⟩
  · intro name inUse env member
    by_cases same : name = .ready 0
    · subst same
      rw [Function.update_self] at member
      exact (placed.order_slots env (mem_order_iff.mpr (.inr member))).1
    · rw [Function.update_of_ne same] at member
      exact placed.slots name inUse env member
  · intro env isCurrent
    have first := (current env).mp isCurrent
    have member := mem_order_iff.mpr (.inl first)
    refine ⟨(placed.order_slots env member).1, fun name inUse inside => ?_⟩
    by_cases same : name = .ready 0
    · subst same
      rw [Function.update_self] at inside
      exact Sched.order_distinct placed.order_ids first env (List.mem_reverse.mp inside) rfl
    · rw [Function.update_of_ne same] at inside
      exact placed.order_apart inUse same env member inside
  · cases after.curenv with
    | none => exact List.nodup_nil
    | some env => exact List.nodup_singleton env
  · intro env bound
    have either : env ∈ state.order (contents (.ready 0)) ∨
        ∃ name, InUse name ∧ name ≠ .ready 0 ∧ env ∈ contents name := by
      rcases placed.everyone env bound with isCurrent | ⟨name, inUse, member⟩
      · exact .inl (List.mem_append_right _ isCurrent)
      · by_cases same : name = .ready 0
        · subst same
          exact .inl (List.mem_append_left _ (List.mem_reverse.mpr member))
        · exact .inr ⟨name, inUse, same, member⟩
    rcases either with member | ⟨name, inUse, other, member⟩
    · rcases mem_order_iff.mp member with first | waiting
      · exact .inl ((current env).mpr first)
      · refine .inr ⟨.ready 0, rfl, ?_⟩
        rw [Function.update_self]
        exact waiting
    · refine .inr ⟨name, inUse, ?_⟩
      rw [Function.update_of_ne other]
      exact member
  · intro env inFree
    rw [freeSame] at inFree
    have idle : after.curenv ≠ some env := by
      intro isCurrent
      rw [selected.current] at isCurrent
      exact (placed.order_slots env (mem_order_iff.mpr (.inl isCurrent))).2 inFree
    rw [selected.envStatus env idle, selected.envId]
    exact placed.freed env inFree
  · intro env bound listed
    rw [freeSame] at listed
    have before := placed.live env bound listed
    refine ⟨?_, (congrFun selected.envId env).trans before.2⟩
    by_cases isCurrent : after.curenv = some env
    · exact notFree env isCurrent
    · rw [selected.envStatus env isCurrent]
      exact before.1

theorem Placed.fresh (placed : Placed state contents state.curenv.toList) (env : Nat)
    (running : state.curenv = some env) (name : QueueName) (inUse : InUse name) :
    env ∉ contents name :=
  (placed.outside env (by simp [running])).2 name inUse

theorem Placed.dispatched (placed : Placed state contents state.curenv.toList) {after : Sched}
    (selected : Sched.Selected InUse contents state after)
    (running : ∀ env, after.curenv = some env → after.envStatus env = .runnable) :
    Settled (contents .exit) after := by
  refine ⟨_, ⟨selected.roundRobin, placed.selected selected ?_, running⟩, ?_⟩
  · intro env isCurrent
    rw [running env isCurrent]
    simp
  · rw [Function.update_of_ne (by simp)]
    exact List.Subset.refl _

theorem Placed.idle (placed : Placed state contents []) (noCurrent : state.curenv = none) :
    Placed state contents state.curenv.toList := by
  rw [noCurrent]
  exact placed

/-- With nothing to run the scheduler ends at the command prompt. -/
theorem fosScheduler_idle (depth : Nat) (roundRobin : state.RoundRobin)
    (placed : Placed state contents state.curenv.toList) (noCurrent : state.curenv = none)
    (noneReady : contents (.ready 0) = []) :
    Ensures (fosScheduler (depth + 1)) state (fun _ _ => False)
      (Settles (contents .exit)) := by
  refine Sched.fosScheduler_roundRobin depth roundRobin placed.holds rfl placed.fresh
    placed.order_few placed.order_ids ?_ ?_
  · exact fun after selected running _ => ⟨after, rfl, placed.dispatched selected running⟩
  · intro failing reading selected _ some
    have empty : state.order (contents (.ready 0)) = [] := by
      simp [Sched.order, noCurrent, noneReady]
    rw [selected.current, empty] at some
    exact absurd rfl some

theorem Placed.scanned (placed : Placed state contents aside) {after : Sched}
    (scanned : Sched.Scanned state after) : Placed after contents aside :=
  placed.same (scanned.holds _ _ placed.holds) scanned.kept.envStatus scanned.kept.envId

theorem roundRobin_kept {after : Sched} (roundRobin : state.RoundRobin)
    (kept : Sched.Kept state after) : after.RoundRobin :=
  ⟨kept.schedulerMethod.trans roundRobin.method, kept.numOfReadyQueues.trans roundRobin.oneQueue,
    (congrFun kept.quantums 0).trans_ne roundRobin.quantum, kept.nl.trans roundRobin.level⟩

/-- Environments outside a queue have other ids than those in it. -/
theorem Placed.id_absent (placed : Placed state contents aside) (member : env ∈ aside)
    {name : QueueName} (inUse : InUse name) (notFree : name ≠ .free) :
    ∀ other ∈ contents name, state.envId other ≠ state.envId env := by
  intro other inQueue equal
  have own := placed.outside env member
  have bound := placed.slots name inUse other inQueue
  have listed := placed.holds.apart name .free inUse trivial notFree other inQueue
  rw [(placed.live other bound listed).2,
    (placed.live env own.1 (own.2 .free trivial)).2] at equal
  have same := EnvironmentIds.slotId_inj bound own.1 equal
  exact own.2 name inUse (same ▸ inQueue)

theorem removeFromNew_skips {raised : Ending → Prop} {envId : BitVec 32}
    (placed : Placed state contents aside)
    (absent : ∀ other ∈ contents .new, state.envId other ≠ envId) :
    Ensures (removeFromNew envId) state
      (fun pair after => pair = (none, false) ∧ Sched.Scanned state after) raised := by
  apply search_skips (placed.holds.represents .new trivial) (placed.few trivial) absent
  exact fun other current different => congrFun (if_neg different) _

theorem removeFromReady_skips {raised : Ending → Prop} {envId : BitVec 32}
    (placed : Placed state contents aside)
    (absent : ∀ other ∈ contents (.ready 0), state.envId other ≠ envId) :
    Ensures (removeFromReady envId [0]) state
      (fun pair after => pair = (none, false) ∧ Sched.Scanned state after) raised := by
  have level : Ensures (removeFromLevel envId 0) state
      (fun pair after => pair = (none, false) ∧ Sched.Scanned state after) raised := by
    apply level_skips (placed.holds.represents (.ready 0) rfl) (placed.few rfl) absent
    exact fun other current different => congrFun (if_neg different) _
  refine Ensures.bind level ?_
  rintro pair after ⟨rfl, scanned⟩
  exact Ensures.pure ⟨rfl, scanned⟩

/-- The running environment is found in no queue and exits. -/
theorem schedExitEnv_current {scheduler : Scheduling Unit} {raised : Ending → Prop}
    (roundRobin : state.RoundRobin) (placed : Placed state contents [env])
    (running : state.curenv = some env)
    (scheduled : ∀ after, after.RoundRobin → after.curenv = none →
      after.envStatus = Function.update state.envStatus env .exit →
      Placed after (Function.update contents .exit (env :: contents .exit)) [] →
      Ensures scheduler after (fun _ _ => False) raised) :
    Ensures (schedExitEnv scheduler (state.envId env)) state (fun _ _ => False) raised := by
  have search : Ensures (searchAndRemove (state.envId env)) state
      (fun pair after => pair = (some env, true) ∧ Sched.Scanned state after) raised := by
    refine Ensures.bind
      (removeFromNew_skips placed (placed.id_absent (by simp) trivial (by simp))) ?_
    rintro pair middle ⟨rfl, scanned⟩
    refine Ensures.bind_get ?_
    have levels : List.range 1 = [0] := rfl
    rw [scanned.kept.numOfReadyQueues, roundRobin.oneQueue, levels]
    have absent : ∀ other ∈ contents (.ready 0), middle.envId other ≠ state.envId env := by
      rw [scanned.kept.envId]
      exact placed.id_absent (by simp) rfl (by simp)
    refine Ensures.bind (removeFromReady_skips (placed.scanned scanned) absent) ?_
    rintro pair after ⟨rfl, further⟩
    have both := scanned.trans further
    have current : after.curenv = some env := both.kept.curenv.trans running
    have own : Ensures curenvId after (fun found final => found = state.envId env ∧ final = after)
        raised := by
      refine Ensures.bind_get ?_
      rw [current]
      exact ⟨congrFun both.kept.envId env, rfl⟩
    refine Ensures.bind own ?_
    rintro found final ⟨rfl, rfl⟩
    refine Ensures.bind_get (Ensures.ite (fun _ => ?_) fun different => absurd rfl different)
    exact Ensures.pure ⟨by rw [current], both⟩
  refine Ensures.bind search ?_
  rintro pair after ⟨rfl, scanned⟩
  refine Ensures.bind_modify ?_
  have exited := (placed.scanned scanned).schedInsertExit
  have current : (after.schedInsertExit (some env)).curenv = some env :=
    scanned.kept.curenv.trans running
  have own : Ensures curenvId (after.schedInsertExit (some env))
      (fun found final => found = state.envId env ∧ final = after.schedInsertExit (some env))
      raised := by
    refine Ensures.bind_get ?_
    rw [current]
    exact ⟨congrFun scanned.kept.envId env, rfl⟩
  refine Ensures.bind own ?_
  rintro found final ⟨rfl, rfl⟩
  refine Ensures.ite (fun _ => Ensures.bind_modify ?_) fun different => absurd rfl different
  have robin := roundRobin_kept roundRobin scanned.kept
  have status : (after.schedInsertExit (some env)).envStatus =
      Function.update state.envStatus env .exit := by
    rw [← scanned.kept.envStatus]
    rfl
  exact scheduled _ ⟨robin.method, robin.oneQueue, robin.quantum, robin.level⟩ rfl status
    (exited.same exited.holds rfl rfl)

/-- What the loops that empty a queue leave alone. -/
structure Drained (before current : Sched) (aside exited : List Nat)
    (later : QueueName → List Nat) : Prop where
  placed : Placed current later aside
  exited : exited ⊆ later .exit
  roundRobin : current.RoundRobin
  curenv : current.curenv = before.curenv
  envStatus : ∀ env ∈ aside, current.envStatus env = before.envStatus env

theorem Drained.setPtrNext {current : Sched} {later : QueueName → List Nat} {exited : List Nat}
    (drained : Drained state current aside exited later) (name : QueueName) (next : Option Nat) :
    Drained state (current.setPtrNext name next) aside exited later := by
  have kept := Sched.setPtrNext_kept current name next
  refine ⟨drained.placed.setPtrNext name next, drained.exited,
    roundRobin_kept drained.roundRobin kept, kept.curenv.trans drained.curenv, ?_⟩
  rw [kept.envStatus]
  exact drained.envStatus

/-- A loop that moves every element of a queue elsewhere, with an invariant. -/
theorem drain_ensures {raised : Ending → Prop} {source : QueueName}
    {invariant : Sched → (QueueName → List Nat) → Prop} (first second : Nat → Sched → Sched)
    (inUse : InUse source) (start : invariant state contents)
    (placed : ∀ current later, invariant current later → ∃ aside, Placed current later aside)
    (scans : ∀ current later next, invariant current later →
      invariant (current.setPtrNext source next) later)
    (moves : ∀ env rest current later, invariant current later → later source = env :: rest →
      ∃ moved, invariant (second env (first env current)) moved ∧ moved source = rest ∧
        ((second env (first env current)).queue source).ptrNext =
          (current.queue source).ptrNext) :
    Ensures (foreachEnv source () fun _ env => do
        modify (first env)
        modify (second env)
        return .yield ()) state
      (fun _ after => ∃ later, invariant after later ∧ later source = []) raised := by
  rcases placed state contents start with ⟨aside, startPlaced⟩
  refine foreachEnv_ensures
    (fun rest _ current => ∃ later, invariant current later ∧ later source = rest)
    (fun _ _ after => ∃ later, invariant after later ∧ later source = [])
    (startPlaced.holds.represents source inUse) (startPlaced.few inUse) ?_ ?_ ?_
    ⟨contents, start, rfl⟩
  · rintro env rest - current ⟨later, holds, equal⟩
    rcases placed current later holds with ⟨aside, currentPlaced⟩
    have represents := currentPlaced.holds.represents source inUse
    rw [equal] at represents
    rw [← List.nil_append (env :: rest)] at represents
    exact represents.next_of_split
  · rintro env rest - current ⟨later, holds, equal⟩
    rcases moves env rest _ later (scans current later rest[0]? holds) equal with
      ⟨moved, holds, remaining, scratch⟩
    refine Ensures.bind_modify (Ensures.bind_modify (Ensures.pure ⟨⟨moved, holds, remaining⟩, ?_⟩))
    rw [scratch]
    exact Sched.ptrNext_setPtrNext current source _
  · rintro - current ⟨later, holds, equal⟩
    exact ⟨later, scans current later none holds, equal⟩

/-- The loop of `sched_exit_all_ready_envs` over the queue. -/
theorem exitLevel_drains {raised : Ending → Prop}
    {invariant : Sched → (QueueName → List Nat) → Prop} (start : invariant state contents)
    (placed : ∀ current later, invariant current later → ∃ aside, Placed current later aside)
    (scans : ∀ current later next, invariant current later →
      invariant (current.setPtrNext (.ready 0) next) later)
    (moves : ∀ env rest current later, invariant current later →
      later (.ready 0) = env :: rest → ∃ moved,
        invariant ((current.removeFromQueue (.ready 0) env).schedInsertExit (some env)) moved ∧
          moved (.ready 0) = rest) :
    Ensures (exitLevel 0) state
      (fun _ after => ∃ later, invariant after later ∧ later (.ready 0) = []) raised := by
  have inUse : InUse (.ready 0) := rfl
  refine Ensures.bind_get (Ensures.ite (fun _ => ?_) fun empty => ?_)
  · refine Ensures.bind (drain_ensures (Sched.removeFromQueue (.ready 0))
      (fun env => Sched.schedInsertExit (some env)) inUse start placed scans ?_) ?_
    · intro env rest current later holds equal
      rcases moves env rest current later holds equal with ⟨moved, kept, remaining⟩
      rcases placed current later holds with ⟨aside, currentPlaced⟩
      have member : env ∈ later (.ready 0) := by simp [equal]
      exact ⟨moved, kept, remaining,
        (currentPlaced.holds.represents (.ready 0) inUse).listRemove_ptrNext member⟩
    · exact fun _ after ensured => Ensures.pure ensured
  · rcases placed state contents start with ⟨aside, startPlaced⟩
    refine Ensures.pure ⟨contents, start, ?_⟩
    rw [not_not, (startPlaced.holds.represents (.ready 0) inUse).first] at empty
    exact List.length_eq_zero_iff.mp (Nat.le_zero.mp (List.getElem?_eq_none_iff.mp empty))

/-- An environment of the ready queue exits. -/
theorem Drained.toExit {current : Sched} {later : QueueName → List Nat} {exited rest : List Nat}
    (drained : Drained state current aside exited later) (equal : later (.ready 0) = env :: rest) :
    Drained state ((current.removeFromQueue (.ready 0) env).schedInsertExit (some env)) aside exited
      (Function.update (Function.update later (.ready 0) rest) .exit (env :: later .exit)) := by
  have inUse : InUse (.ready 0) := rfl
  have member : env ∈ later (.ready 0) := by simp [equal]
  have removed := (drained.placed.removeFromQueue inUse (by simp) member).schedInsertExit
  rw [equal, List.erase_cons_head, Function.update_of_ne (by simp)] at removed
  have robin := drained.roundRobin
  refine ⟨removed, ?_, ⟨robin.method, robin.oneQueue, robin.quantum, robin.level⟩,
    drained.curenv, ?_⟩
  · rw [Function.update_self]
    exact fun other before => List.mem_cons_of_mem _ (drained.exited before)
  · intro other isAside
    have different : other ≠ env := by
      rintro rfl
      exact (drained.placed.outside other isAside).2 (.ready 0) inUse member
    exact (Function.update_of_ne different _ _).trans (drained.envStatus other isAside)

/-- All environments of the ready queue exit. -/
theorem exitLevel_ensures {raised : Ending → Prop} {exited : List Nat}
    (drained : Drained state state aside exited contents) :
    Ensures (exitLevel 0) state (fun _ after => ∃ later,
      Drained state after aside exited later ∧ later (.ready 0) = []) raised := by
  refine exitLevel_drains drained (fun _ _ holds => ⟨aside, holds.placed⟩)
    (fun _ _ next holds => holds.setPtrNext (.ready 0) next) ?_
  intro env rest current later holds equal
  refine ⟨_, holds.toExit equal, ?_⟩
  rw [Function.update_of_ne (by simp), Function.update_self]

theorem Placed.drained (placed : Placed state contents aside) (roundRobin : state.RoundRobin) :
    Drained state state aside (contents .exit) contents :=
  ⟨placed, List.Subset.refl _, roundRobin, rfl, fun _ _ => rfl⟩

theorem schedExitAllReadyEnvs_ensures {raised : Ending → Prop} (roundRobin : state.RoundRobin)
    (placed : Placed state contents aside) :
    Ensures schedExitAllReadyEnvs state (fun _ after => ∃ later,
      Drained state after aside (contents .exit) later ∧ later (.ready 0) = []) raised := by
  refine Ensures.bind_get ?_
  have levels : List.range 1 = [0] := rfl
  rw [roundRobin.oneQueue, levels]
  refine Ensures.bind (exitLevel_ensures (placed.drained roundRobin)) ?_
  exact fun _ after ensured => Ensures.pure ensured

theorem Settles.mono {larger smaller : List Nat} (within : smaller ⊆ larger) {ending : Ending}
    (settles : Settles larger ending) : Settles smaller ending := by
  rcases settles with ⟨after, switched, contents, good, exited⟩
  exact ⟨after, switched, contents, good, fun env member => exited (within member)⟩

/-- After a failed check everything exits and the command prompt goes on. -/
theorem panicAll_settles (depth : Nat) (roundRobin : state.RoundRobin)
    (placed : Placed state contents state.curenv.toList) :
    Ensures (panicAll (fosScheduler (depth + 1))) state (fun _ _ => False)
      (Settles (contents .exit)) := by
  refine Ensures.bind (schedExitAllReadyEnvs_ensures roundRobin placed) ?_
  rintro ⟨⟩ after ⟨later, drained, noneReady⟩
  refine Ensures.bind_get ?_
  have afterPlaced := drained.placed
  rw [← drained.curenv] at afterPlaced
  cases current : after.curenv with
  | none =>
      rw [current] at afterPlaced
      exact (fosScheduler_idle depth drained.roundRobin (current ▸ afterPlaced) current
        noneReady).mono (fun _ _ impossible => impossible) fun _ => Settles.mono drained.exited
  | some env =>
      rw [current] at afterPlaced
      have exits : Ensures (schedExitEnv (fosScheduler (depth + 1)) (after.envId env)) after
          (fun _ _ => False) (Settles (contents .exit)) := by
        refine schedExitEnv_current drained.roundRobin afterPlaced current ?_
        intro final robin noCurrent _ finalPlaced
        refine (fosScheduler_idle depth robin (finalPlaced.idle noCurrent) noCurrent ?_).mono
          (fun _ _ impossible => impossible) fun _ => Settles.mono ?_
        · rw [Function.update_of_ne (by simp)]
          exact noneReady
        · rw [Function.update_self]
          exact fun other before => List.mem_cons_of_mem _ (drained.exited before)
      exact Ensures.bind exits fun _ _ impossible => impossible.elim

/-- The scheduler keeps every environment in one place. -/
theorem fosScheduler_settles (depth : Nat) (roundRobin : state.RoundRobin)
    (placed : Placed state contents state.curenv.toList) :
    Ensures (fosScheduler (depth + 2)) state (fun _ _ => False)
      (Settles (contents .exit)) := by
  refine Sched.fosScheduler_roundRobin (depth + 1) roundRobin placed.holds rfl placed.fresh
    placed.order_few placed.order_ids ?_ ?_
  · exact fun after selected running _ => ⟨after, rfl, placed.dispatched selected running⟩
  · intro failing reading selected envStatus _ _ _
    have failingPlaced := placed.selected selected (by
      intro env isCurrent
      rw [selected.current] at isCurrent
      have slot := placed.order_slots env (mem_order_iff.mpr (.inl isCurrent))
      rw [envStatus]
      exact (placed.live env slot.1 slot.2).1)
    refine (panicAll_settles depth selected.roundRobin failingPlaced).mono
      (fun _ _ impossible => impossible) fun _ => Settles.mono ?_
    rw [Function.update_of_ne (by simp)]
    exact List.Subset.refl _

/-- A new environment becomes ready. -/
theorem Drained.toReady {current : Sched} {later : QueueName → List Nat} {exited : List Nat}
    (drained : Drained state current aside exited later) (member : env ∈ later .new) :
    Drained state ((current.schedRemoveNew env).schedInsertReady env) aside exited
      (Function.update (Function.update later .new ((later .new).erase env)) (.ready 0)
        (env :: Function.update later .new ((later .new).erase env) (.ready 0))) := by
  have robin := drained.roundRobin
  refine ⟨(drained.placed.schedRemoveNew member).schedInsertReady, ?_,
    ⟨robin.method, robin.oneQueue, robin.quantum, robin.level⟩, drained.curenv, ?_⟩
  · rw [Function.update_of_ne (by simp), Function.update_of_ne (by simp)]
    exact drained.exited
  · intro other isAside
    have different : other ≠ env := by
      rintro rfl
      exact (drained.placed.outside other isAside).2 .new trivial member
    refine Eq.trans ?_ (drained.envStatus other isAside)
    exact (Function.update_of_ne different _ _).trans (Function.update_of_ne different _ _)

theorem Good.drained {after : Sched} {exited : List Nat} {later : QueueName → List Nat}
    (good : Good state contents)
    (drained : Drained state after state.curenv.toList exited later) : Good after later := by
  have placed := drained.placed
  rw [← drained.curenv] at placed
  refine ⟨drained.roundRobin, placed, ?_⟩
  intro env running
  rw [drained.curenv] at running
  exact (drained.envStatus env (by simp [running])).trans (good.running env running)

/-! ## Calls -/

/-- A call that returns leaves a good state, and so does one that switches. -/
def Keeps (call : Scheduling Unit) (state : Sched) (exited : List Nat) : Prop :=
  Ensures call state (fun _ after => Settled exited after) (Settles exited)

theorem Ensures.keeps {call : Scheduling Unit} {exited : List Nat}
    (ensures : Ensures call state (fun _ _ => False) (Settles exited)) :
    Keeps call state exited :=
  ensures.mono (fun _ _ impossible => impossible.elim) fun _ settles => settles

theorem fosScheduler_keeps (depth : Nat) (good : Good state contents) :
    Keeps (fosScheduler (depth + 2)) state (contents .exit) :=
  Ensures.keeps (fosScheduler_settles depth good.roundRobin good.placed)

theorem envExit_settles (depth : Nat) (good : Good state contents)
    (running : state.curenv = some env) :
    Ensures (envExit (fosScheduler (depth + 2))) state (fun _ _ => False)
      (Settles (contents .exit)) := by
  have placed := good.placed
  rw [running] at placed
  have own : Ensures curenvId state (fun found after => found = state.envId env ∧ after = state)
      (Settles (contents .exit)) := by
    refine Ensures.bind_get ?_
    rw [running]
    exact ⟨rfl, rfl⟩
  refine Ensures.bind own ?_
  rintro found after ⟨rfl, rfl⟩
  have exits : Ensures (schedExitEnv (fosScheduler (depth + 2)) (after.envId env)) after
      (fun _ _ => False) (Settles (contents .exit)) := by
    refine schedExitEnv_current good.roundRobin placed running ?_
    intro final robin noCurrent _ finalPlaced
    refine (fosScheduler_settles depth robin (finalPlaced.idle noCurrent)).mono
      (fun _ _ impossible => impossible) fun _ => Settles.mono ?_
    rw [Function.update_self]
    exact List.subset_cons_self _ _
  exact Ensures.bind exits fun _ _ impossible => impossible.elim

theorem panic_keeps (depth : Nat) (good : Good state contents) :
    Keeps (panic (fosScheduler (depth + 2))) state (contents .exit) := by
  refine Ensures.bind_get ?_
  cases running : state.curenv with
  | none => exact fosScheduler_keeps depth good
  | some env =>
      have isRunnable := good.running env running
      refine Ensures.ite (fun _ => ?_) fun other => absurd isRunnable other
      exact Ensures.bind (envExit_settles depth good running) fun _ _ impossible => impossible.elim

theorem schedExitAllReadyEnvs_keeps (good : Good state contents) :
    Keeps schedExitAllReadyEnvs state (contents .exit) := by
  refine (schedExitAllReadyEnvs_ensures good.roundRobin good.placed).mono ?_ fun _ holds => holds
  rintro _ after ⟨later, drained, -⟩
  exact ⟨later, good.drained drained, drained.exited⟩

theorem schedRunAll_keeps (depth : Nat) (good : Good state contents) :
    Keeps (schedRunAll (depth + 2)) state (contents .exit) := by
  have inUse : InUse .new := trivial
  have moved : Ensures (foreachEnv .new () fun _ env => do
      modify (Sched.schedRemoveNew env)
      modify (Sched.schedInsertReady env)
      return .yield ()) state (fun _ after => ∃ later,
        Drained state after state.curenv.toList (contents .exit) later ∧ later .new = [])
      (Settles (contents .exit)) := by
    refine drain_ensures Sched.schedRemoveNew Sched.schedInsertReady inUse
      (good.placed.drained good.roundRobin) (fun _ _ holds => ⟨_, holds.placed⟩)
      (fun _ _ next holds => holds.setPtrNext .new next) ?_
    intro env rest current later drained equal
    have member : env ∈ later .new := by simp [equal]
    refine ⟨_, drained.toReady member, ?_, ?_⟩
    · rw [Function.update_of_ne (by simp), Function.update_self, equal, List.erase_cons_head]
    · exact (drained.placed.holds.represents .new inUse).listRemove_ptrNext member
  refine Ensures.bind moved ?_
  rintro _ after ⟨later, drained, -⟩
  have afterGood := good.drained drained
  refine Ensures.bind_get (Ensures.ite (fun _ => ?_) fun _ => ?_)
  · exact (fosScheduler_settles depth afterGood.roundRobin afterGood.placed).mono
      (fun _ _ impossible => impossible.elim) fun _ => Settles.mono drained.exited
  · exact Ensures.pure ⟨later, afterGood, drained.exited⟩

/-- The loop of `sched_run_env` makes at most one environment ready. -/
theorem schedRunEnv_ensures {raised : Ending → Prop} {returned : Sched → Prop} {depth : Nat}
    (placed : Placed state contents aside) (envId : BitVec 32)
    (skips : ∀ next, returned (state.setPtrNext .new next))
    (moves : ∀ next, ∀ env ∈ contents .new,
      returned (((state.setPtrNext .new next).schedRemoveNew env).schedInsertReady env))
    (schedules : ∀ next, ∀ env ∈ contents .new, state.schedulerStatus = .stopped →
      Ensures (fosScheduler depth)
        (((state.setPtrNext .new next).schedRemoveNew env).schedInsertReady env)
        (fun _ _ => False) raised) :
    Ensures (schedRunEnv depth envId) state (fun _ after => returned after) raised := by
  have inUse : InUse .new := trivial
  have represents := placed.holds.represents .new inUse
  have loop : Ensures (foreachEnv .new () fun _ env => do
      let state ← get
      if state.envId env = envId then
        modify (Sched.schedRemoveNew env)
        modify (Sched.schedInsertReady env)
        let state ← get
        if state.schedulerStatus = .stopped then
          fosScheduler depth
          return .done ()
        else return .done ()
      else return .yield ()) state (fun _ after => returned after) raised := by
    refine foreachEnv_ensures
      (fun rest _ current => (∃ done, contents .new = done ++ rest) ∧
        ∃ next, current = state.setPtrNext .new next)
      (fun _ _ after => returned after) represents
      (placed.few inUse) ?_ ?_ ?_ ⟨⟨[], rfl⟩, _, (Sched.setPtrNext_self state .new).symm⟩
    · rintro env rest - current ⟨⟨done, equal⟩, next, rfl⟩
      rw [Sched.links_setPtrNext]
      rw [equal] at represents
      exact represents.next_of_split
    · rintro env rest - current ⟨⟨done, equal⟩, next, rfl⟩
      have member : env ∈ contents .new := by simp [equal]
      rw [Sched.setPtrNext_setPtrNext]
      refine Ensures.bind_get (Ensures.ite (fun _ => ?_) fun _ => ?_)
      · refine Ensures.bind_modify (Ensures.bind_modify (Ensures.bind_get ?_))
        refine Ensures.ite (fun stopped => ?_) fun _ => Ensures.pure (moves _ env member)
        exact Ensures.bind (schedules _ env member stopped) fun _ _ impossible => impossible.elim
      · exact Ensures.pure ⟨⟨⟨done ++ [env], by simp [equal]⟩, _, rfl⟩,
          Sched.ptrNext_setPtrNext state .new _⟩
    · rintro - current ⟨-, next, rfl⟩
      rw [Sched.setPtrNext_setPtrNext]
      exact skips none
  exact Ensures.bind loop fun _ after holds => Ensures.pure holds

theorem schedRunEnv_keeps (depth : Nat) (good : Good state contents) (envId : BitVec 32) :
    Keeps (schedRunEnv (depth + 2) envId) state (contents .exit) := by
  have skipped := fun next => (good.placed.drained good.roundRobin).setPtrNext .new next
  refine schedRunEnv_ensures good.placed envId ?_ ?_ ?_
  · exact fun next => ⟨_, good.drained (skipped next), (skipped next).exited⟩
  · intro next env member
    have moved := (skipped next).toReady member
    exact ⟨_, good.drained moved, moved.exited⟩
  · intro next env member _
    have moved := (skipped next).toReady member
    have movedGood := good.drained moved
    exact (fosScheduler_settles depth movedGood.roundRobin movedGood.placed).mono
      (fun _ _ impossible => impossible) fun _ => Settles.mono moved.exited

/-- `allocate_environment` and `complete_environment_initialization`, followed by
`sched_new_env`. -/
def createEnv : Scheduling Unit := do
  let state ← get
  match state.toEnvTable.allocateEnvironment with
  | none => return ()
  | some (env, table) =>
      set { state with toEnvTable := table.completeEnvironmentInitialization env }
      schedNewEnv env

theorem Placed.create (placed : Placed state contents aside) {rest : List Nat}
    (free : contents .free = env :: rest) :
    Placed { state with
        toEnvTable := (state.toEnvTable.setStatus env .unknown).completeEnvironmentInitialization
          env }
      (Function.update contents .free rest) (env :: aside) := by
  have inUse : InUse .free := trivial
  have member : env ∈ contents .free := by simp [free]
  have nodup := (placed.holds.represents .free inUse).nodup
  rw [free, List.nodup_cons] at nodup
  have arranged := placed.toArranged.removeFromQueue inUse member
  rw [free, List.erase_cons_head] at arranged
  have old := (placed.freed env member).2
  refine ⟨{ arranged with }, ?_, ?_⟩
  · intro other inRest
    rw [Function.update_self] at inRest
    have different : other ≠ env := by
      rintro rfl
      exact nodup.1 inRest
    simpa [EnvTable.completeEnvironmentInitialization, EnvTable.setStatus,
      EnvTable.withFreeList, different] using placed.freed other (by simp [free, inRest])
  · intro other bound outside
    rw [Function.update_self] at outside
    by_cases same : other = env
    · subst same
      simp [EnvTable.completeEnvironmentInitialization, EnvTable.setStatus,
        EnvTable.withFreeList, old, EnvironmentIds.nextId_zero]
    · simpa [EnvTable.completeEnvironmentInitialization, EnvTable.setStatus,
        EnvTable.withFreeList, same] using placed.live other bound (by simp [free, same, outside])

/-- A new environment has come out of the free list into the new queue. -/
structure Created (before after : Sched) (contents : QueueName → List Nat) (env : Nat)
    (rest : List Nat) : Prop where
  free : contents .free = env :: rest
  good : Good after (Function.update (Function.update contents .free rest) .new
    (env :: Function.update contents .free rest .new))
  own : after.envStatus env = .new
  others : ∀ other, other ≠ env → after.envStatus other = before.envStatus other
  curenv : after.curenv = before.curenv
  schedulerStatus : after.schedulerStatus = before.schedulerStatus

theorem createEnv_creates {raised : Ending → Prop} (good : Good state contents) :
    Ensures createEnv state (fun _ after =>
      after = state ∨ ∃ env rest, Created state after contents env rest) raised := by
  have represents := good.placed.holds.represents .free trivial
  refine Ensures.bind_get ?_
  have first : state.envFreeList.first = (contents .free)[0]? := represents.first
  cases free : contents .free with
  | nil =>
      have none : state.toEnvTable.allocateEnvironment = none := by
        simp [EnvTable.allocateEnvironment, first, free]
      rw [none]
      exact Ensures.pure (.inl rfl)
  | cons env rest =>
      have found : state.toEnvTable.allocateEnvironment =
          some (env, state.toEnvTable.setStatus env .unknown) := by
        simp [EnvTable.allocateEnvironment, first, free]
      rw [found]
      have robin := good.roundRobin
      have created := (good.placed.create free).schedInsertNew
      have others : ∀ other, other ≠ env → ({ state with
          toEnvTable := (state.toEnvTable.setStatus env .unknown).completeEnvironmentInitialization
            env }.schedInsertNew env).envStatus other = state.envStatus other := by
        intro other different
        simp [Sched.schedInsertNew, Sched.setEnvStatus, Sched.enqueue, Sched.withList,
          Sched.setQueue, EnvTable.completeEnvironmentInitialization, EnvTable.setStatus,
          EnvTable.withFreeList, different]
      refine .inr ⟨env, rest, free, ⟨⟨robin.method, robin.oneQueue, robin.quantum, robin.level⟩,
        created, ?_⟩, Function.update_self _ _ _, others, rfl, rfl⟩
      intro current (running : state.curenv = some current)
      have different : current ≠ env := by
        rintro rfl
        exact good.placed.fresh current running .free trivial (by simp [free])
      exact (others current different).trans (good.running current running)

theorem createEnv_keeps (good : Good state contents) :
    Keeps createEnv state (contents .exit) := by
  refine (createEnv_creates good).mono ?_ fun _ holds => holds
  rintro _ after (rfl | ⟨env, rest, created⟩)
  · exact ⟨contents, good, List.Subset.refl _⟩
  · refine ⟨_, created.good, ?_⟩
    rw [Function.update_of_ne (by simp), Function.update_of_ne (by simp)]
    exact List.Subset.refl _

end Places

/-! ## Runs -/

section Runs

/-- What the kernel calls, by commands, system calls, clock interrupts and panics. -/
inductive Call
  | newEnv
  | runEnv (envId : BitVec 32)
  | runAll
  | clockInterrupt
  | envExit
  | panic
  | exitAllReadyEnvs
  | panicAll

def Call.run (depth : Nat) : Call → Scheduling Unit
  | .newEnv => createEnv
  | .runEnv envId => schedRunEnv depth envId
  | .runAll => schedRunAll depth
  | .clockInterrupt => fosScheduler depth
  | .envExit => FosKernel.envExit (fosScheduler depth)
  | .panic => FosKernel.panic (fosScheduler depth)
  | .exitAllReadyEnvs => schedExitAllReadyEnvs
  | .panicAll => FosKernel.panicAll (fosScheduler depth)

/-- Only a running environment can exit. -/
def Call.Possible (state : Sched) : Call → Prop
  | .envExit => state.curenv ≠ none
  | _ => True

/-- The state in which the kernel goes on after a call, unless it fails. -/
def Call.after (depth : Nat) (call : Call) (state : Sched) : Option Sched :=
  match call.run depth state with
  | .ok (_, after) => some after
  | .error (.switched after) => some after
  | .error (.failed _) => none

variable {depth : Nat}

theorem Call.keeps {state : Sched} {contents : QueueName → List Nat} (call : Call)
    (good : Good state contents) (possible : call.Possible state) :
    Keeps (call.run (depth + 2)) state (contents .exit) := by
  cases call with
  | newEnv => exact createEnv_keeps good
  | runEnv envId => exact schedRunEnv_keeps depth good envId
  | runAll => exact schedRunAll_keeps depth good
  | clockInterrupt => exact fosScheduler_keeps depth good
  | envExit =>
      rcases Option.ne_none_iff_exists'.mp possible with ⟨env, running⟩
      exact Ensures.keeps (envExit_settles depth good running)
  | panic => exact panic_keeps depth good
  | exitAllReadyEnvs => exact schedExitAllReadyEnvs_keeps good
  | panicAll => exact Ensures.keeps (panicAll_settles (depth + 1) good.roundRobin good.placed)

theorem Call.after_good {state : Sched} {contents : QueueName → List Nat} (call : Call)
    (good : Good state contents) (possible : call.Possible state) :
    ∃ after, call.after (depth + 2) state = some after ∧ Settled (contents .exit) after := by
  have keeps : Keeps (call.run (depth + 2)) state (contents .exit) := call.keeps good possible
  unfold Keeps Ensures at keeps
  unfold Call.after
  split at keeps
  · rename_i equal
    rw [equal]
    exact ⟨_, rfl, keeps⟩
  · rename_i equal
    rcases keeps with ⟨after, rfl, settled⟩
    rw [equal]
    exact ⟨after, rfl, settled⟩

/-- The scheduler's part of the kernel's start. -/
def boot : Scheduling Unit := do
  modify fun state => { state with toEnvTable := state.toEnvTable.envInit }
  modify (Sched.chksch 1)
  schedInit

theorem envInit_curenv (table : EnvTable) : table.envInit.curenv = table.curenv := by
  rw [EnvTable.envInit]
  induction (List.range nenv).reverse generalizing table with
  | nil => rfl
  | cons env rest induction => exact induction (table.initSlot env)

theorem schedInit_returns (state : Sched) (level : state.nl = 0) :
    ∃ after, schedInit state = .ok ((), after) ∧ after.toEnvTable = state.toEnvTable ∧
      after.RoundRobin ∧ ∀ name, name ≠ .free → InUse name →
        (after.queue name).first = none ∧ (after.queue name).last = none ∧
          (after.queue name).size = 0 := by
  have usable : clockIntervalInMs ≠ 0 := by decide
  refine ⟨_, rfl, rfl, ⟨rfl, rfl, usable, level⟩, ?_⟩
  intro name notFree inUse
  cases name with
  | free => exact absurd rfl notFree
  | new => exact ⟨rfl, rfl, rfl⟩
  | exit => exact ⟨rfl, rfl, rfl⟩
  | ready level =>
      cases inUse
      exact ⟨rfl, rfl, rfl⟩

theorem bind_modify_apply (change : Sched → Sched) (rest : PUnit → Scheduling α)
    (state : Sched) : (modify change >>= rest) state = rest ⟨⟩ (change state) := rfl

/-- After the start all slots are free. -/
theorem boot_good {raw : Sched} (zeroed : raw.toEnvTable = .zero) :
    ∃ state contents, boot raw = .ok ((), state) ∧ Good state contents ∧
      state.curenv = none ∧ ∀ name, name ≠ .free → contents name = [] := by
  rw [boot, bind_modify_apply, bind_modify_apply, zeroed]
  generalize initialised : EnvTable.zero.envInit = table
  rcases schedInit_returns ({ raw with toEnvTable := table }.chksch 1) rfl with
    ⟨state, returned, same, roundRobin, empty⟩
  replace same : state.toEnvTable = EnvTable.zero.envInit := same.trans initialised.symm
  have sound := EnvironmentIds.envInit_sound
  rw [← same] at sound
  have current : state.curenv = none := by
    rw [same, envInit_curenv]
    rfl
  let contents : QueueName → List Nat := fun name => if name = .free then List.range nenv else []
  have free : contents .free = List.range nenv := if_pos rfl
  have other : ∀ name, name ≠ .free → contents name = [] := fun name different => if_neg different
  refine ⟨state, contents, returned, ⟨roundRobin, ⟨⟨⟨?_, ?_⟩, ?_, ?_, ?_, ?_⟩, ?_, ?_⟩, ?_⟩,
    current, other⟩
  · intro name inUse
    by_cases isFree : name = .free
    · subst isFree
      rw [free]
      exact sound.list
    · rw [other name isFree]
      have nothing := empty name isFree inUse
      exact ⟨.nil _, .nil, nothing.1, nothing.2.1, nothing.2.2⟩
  · intro left right _ _ different env inLeft inRight
    by_cases isFree : left = .free
    · subst isFree
      rw [other right different.symm] at inRight
      cases inRight
    · rw [other left isFree] at inLeft
      cases inLeft
  · intro name _ env member
    by_cases isFree : name = .free
    · subst isFree
      exact List.mem_range.mp (free ▸ member)
    · rw [other name isFree] at member
      cases member
  · intro env isAside
    rw [current] at isAside
    cases isAside
  · rw [current]
    exact List.nodup_nil
  · intro env bound
    refine .inr ⟨.free, trivial, ?_⟩
    rw [free]
    exact List.mem_range.mpr bound
  · rw [free]
    exact sound.freed
  · rw [free]
    exact sound.live
  · intro env running
    rw [current] at running
    cases running

inductive Run (depth : Nat) : Sched → Sched → Prop
  | refl (state : Sched) : Run depth state state
  | step {start state after : Sched} {call : Call} :
      Run depth start state → call.Possible state → call.after depth state = some after →
      Run depth start after

theorem Run.good {start state : Sched} {contents : QueueName → List Nat}
    (run : Run (depth + 2) start state) (good : Good start contents) :
    Settled (contents .exit) state := by
  induction run with
  | refl => exact ⟨contents, good, List.Subset.refl _⟩
  | @step _ _ call _ possible returned induction =>
      rcases induction with ⟨later, laterGood, exited⟩
      rcases call.after_good laterGood possible with ⟨after, equal, final, finalGood, further⟩
      rw [equal, Option.some.injEq] at returned
      subst returned
      exact ⟨final, finalGood, fun env member => further (exited member)⟩

/-- Every environment that has been created is once in one of the three queues or runs. -/
structure NoneLost (state : Sched) (new ready exit : List Nat) : Prop where
  newQueue : Represents state.links state.envNewQueue new
  readyQueue : Represents state.links (state.envReadyQueues 0) ready
  exitQueue : Represents state.links state.envExitQueue exit
  once : (new ++ ready ++ exit ++ state.curenv.toList).Nodup
  everyone : ∀ env, env ∈ new ++ ready ++ exit ++ state.curenv.toList ↔
    env < nenv ∧ state.envStatus env ≠ .free

theorem Good.noneLost {state : Sched} {contents : QueueName → List Nat}
    (good : Good state contents) :
    NoneLost state (contents .new) (contents (.ready 0)) (contents .exit) := by
  have placed := good.placed
  have lists := placed.holds
  refine ⟨lists.represents .new trivial, lists.represents (.ready 0) rfl,
    lists.represents .exit trivial, ?_, ?_⟩
  · refine List.nodup_append.mpr ⟨List.nodup_append.mpr ⟨List.nodup_append.mpr
      ⟨(lists.represents .new trivial).nodup, (lists.represents (.ready 0) rfl).nodup, ?_⟩,
      (lists.represents .exit trivial).nodup, ?_⟩, placed.distinct, ?_⟩
    · rintro env inNew _ inReady rfl
      exact lists.apart .new (.ready 0) trivial rfl (by simp) env inNew inReady
    · rintro env member _ inExit rfl
      rcases List.mem_append.mp member with inNew | inReady
      · exact lists.apart .new .exit trivial trivial (by simp) env inNew inExit
      · exact lists.apart (.ready 0) .exit rfl trivial (by simp) env inReady inExit
    · rintro env member _ isCurrent rfl
      have outside := (placed.outside env isCurrent).2
      rcases List.mem_append.mp member with inQueues | inExit
      · rcases List.mem_append.mp inQueues with inNew | inReady
        · exact outside .new trivial inNew
        · exact outside (.ready 0) rfl inReady
      · exact outside .exit trivial inExit
  · intro env
    have inQueue : ∀ name, InUse name → name ≠ .free → env ∈ contents name →
        env < nenv ∧ state.envStatus env ≠ .free := by
      intro name inUse notFree member
      have bound := placed.slots name inUse env member
      exact ⟨bound, (placed.live env bound
        (lists.apart name .free inUse trivial notFree env member)).1⟩
    constructor
    · intro member
      rcases List.mem_append.mp member with queues | isCurrent
      · rcases List.mem_append.mp queues with newOrReady | inExit
        · rcases List.mem_append.mp newOrReady with inNew | inReady
          · exact inQueue .new trivial (by simp) inNew
          · exact inQueue (.ready 0) rfl (by simp) inReady
        · exact inQueue .exit trivial (by simp) inExit
      · have own := placed.outside env isCurrent
        exact ⟨own.1, (placed.live env own.1 (own.2 .free trivial)).1⟩
    · rintro ⟨bound, isCreated⟩
      rcases placed.everyone env bound with isCurrent | ⟨name, inUse, member⟩
      · exact List.mem_append_right _ isCurrent
      · refine List.mem_append_left _ ?_
        cases name with
        | free => exact absurd (placed.freed env member).1 isCreated
        | new => exact List.mem_append_left _ (List.mem_append_left _ member)
        | exit => exact List.mem_append_right _ member
        | ready level =>
            cases inUse
            exact List.mem_append_left _ (List.mem_append_right _ member)

/-- In every run each created environment is in one place, once, no call fails, and what
is in the exit queue stays there. -/
theorem no_environment_lost {raw start state : Sched} (zeroed : raw.toEnvTable = .zero)
    (booted : boot raw = .ok ((), start)) (run : Run (depth + 2) start state) :
    ∃ new ready exit, NoneLost state new ready exit ∧
      (∀ call : Call, call.Possible state →
        ∃ after, call.after (depth + 2) state = some after) ∧
      ∀ later, Run (depth + 2) state later →
        ∃ laterNew laterReady laterExit,
          NoneLost later laterNew laterReady laterExit ∧ exit ⊆ laterExit := by
  rcases boot_good zeroed with ⟨_, contents, returned, startGood, -⟩
  rw [returned, Except.ok.injEq, Prod.mk.injEq] at booted
  rcases booted with ⟨-, rfl⟩
  rcases run.good startGood with ⟨current, good, -⟩
  refine ⟨_, _, _, good.noneLost, ?_, ?_⟩
  · intro call possible
    rcases call.after_good good possible with ⟨after, equal, -⟩
    exact ⟨after, equal⟩
  · intro later further
    rcases further.good good with ⟨final, finalGood, exited⟩
    exact ⟨_, _, _, finalGood.noneLost, exited⟩

theorem no_environment_lost_two_calls :
    ∃ start state new ready exit,
      boot { sampleQueue with toEnvTable := .zero } = .ok ((), start) ∧
      Run 2 start state ∧ NoneLost state new ready exit := by
  have zeroed : { sampleQueue with toEnvTable := .zero }.toEnvTable = EnvTable.zero := rfl
  rcases boot_good zeroed with ⟨start, contents, booted, good, -⟩
  rcases Call.newEnv.after_good good trivial with ⟨created, equal, later, createdGood, -⟩
  rcases Call.runAll.after_good createdGood trivial with ⟨state, ran, -⟩
  have begun : Run 2 start created :=
    .step (.refl start) (show Call.newEnv.Possible start from trivial) equal
  have run : Run 2 start state :=
    .step begun (show Call.runAll.Possible created from trivial) ran
  rcases no_environment_lost zeroed booted run with ⟨new, ready, exit, holds, -⟩
  exact ⟨start, state, new, ready, exit, booted, run, holds⟩

end Runs

end FosKernel.RoundRobin
