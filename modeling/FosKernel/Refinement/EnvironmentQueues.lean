import FosKernel.Refinement.Scheduler

/-! # Searches for an environment

The loops of the scheduler that look for an environment by its id, over any number of
ready queues.
-/

namespace FosKernel

open LinkedList

/-- A list with an element is not empty. -/
theorem Represents.filled {links : Nat → Link Nat} {head : ListHead Nat} {values : List Nat}
    {value : Nat} (represents : Represents links head values) (member : value ∈ values) :
    head.first ≠ none := by
  rw [represents.first]
  intro empty
  rw [List.getElem?_eq_none_iff, Nat.le_zero, List.length_eq_zero_iff] at empty
  rw [empty] at member
  cases member

section Loops

variable {state : Sched} {values : List Nat} {name : QueueName} {env : Nat}
variable {envId : BitVec 32} {act : Nat → Scheduling Unit} {result : Sched → Prop}
variable {raised : Ending → Prop}

/-- Without a match either loop goes through the queue and finds nothing. -/
theorem search_skips {body : Bool → Nat → Scheduling (ForInStep Bool)}
    (represents : Represents state.links (state.queue name) values)
    (few : values.length ≤ nenv) (absent : ∀ other ∈ values, state.envId other ≠ envId)
    (same : ∀ env current, current.envId env ≠ envId →
      body false env current = .ok (.yield false, current)) :
    Ensures (foreachEnv name false body) state
      (fun pair after => pair = (none, false) ∧ Sched.Scanned state after) raised := by
  refine (foreachEnv_skips represents few fun other member next => same other _ ?_).mono ?_
    fun _ holds => holds
  · rw [(Sched.setPtrNext_kept state name next).envId]
    exact absent other member
  · rintro pair after ⟨isNone, next, rfl⟩
    exact ⟨isNone, Sched.setPtrNext_scanned state name next⟩

/-- The loop over a ready queue is left out when the queue is empty. -/
theorem level_skips {level : Nat} {body : Bool → Nat → Scheduling (ForInStep Bool)}
    (represents : Represents state.links (state.queue (.ready level)) values)
    (few : values.length ≤ nenv) (absent : ∀ other ∈ values, state.envId other ≠ envId)
    (same : ∀ env current, current.envId env ≠ envId →
      body false env current = .ok (.yield false, current)) :
    Ensures (do
      let current ← get
      if (current.queue (.ready level)).first ≠ none then
        foreachEnv (.ready level) false body
      else return (none, false)) state
      (fun pair after => pair = (none, false) ∧ Sched.Scanned state after) raised := by
  apply Ensures.bind_get
  apply Ensures.ite
  · exact fun _ => search_skips represents few absent same
  · exact fun _ => Ensures.pure ⟨rfl, Sched.Scanned.refl state⟩

/-- A loop that stops at the match. -/
theorem search_stops (represents : Represents state.links (state.queue name) values)
    (few : values.length ≤ nenv) (member : env ∈ values) (own : state.envId env = envId)
    (unique : ∀ other ∈ values, state.envId other = envId → other = env)
    (acts : ∀ next, Ensures (act env) (state.setPtrNext name next) (fun _ => result) raised) :
    Ensures (foreachEnv name false fun found env => do
      let state ← get
      if state.envId env = envId then
        act env
        return .done true
      else return .yield found) state
      (fun pair after => pair = (some env, true) ∧ result after) raised := by
  refine (foreachEnv_ensures
    (fun rest found current => found = false ∧ env ∈ rest ∧ (∃ done, values = done ++ rest) ∧
      ∃ next, current = state.setPtrNext name next)
    (fun var found after => var = some env ∧ found = true ∧ result after)
    represents few ?_ ?_ ?_ ?_).mono ?_ fun _ holds => holds
  · rintro other rest _ _ ⟨rfl, -, ⟨done, rfl⟩, next, rfl⟩
    rw [Sched.links_setPtrNext]
    exact represents.next_of_split
  · rintro other rest _ _ ⟨rfl, inRest, ⟨done, rfl⟩, next, rfl⟩
    rw [Sched.setPtrNext_setPtrNext]
    have ids := (Sched.setPtrNext_kept state name rest[0]?).envId
    refine Ensures.bind_get (Ensures.ite (fun isMatch => ?_) fun noMatch => ?_)
    · rw [ids] at isMatch
      have same : other = env := unique other (by simp) isMatch
      subst same
      exact Ensures.bind (acts _) fun _ after holds => Ensures.pure ⟨rfl, rfl, holds⟩
    · rw [ids] at noMatch
      have different : env ≠ other := by
        rintro rfl
        exact noMatch own
      refine Ensures.pure ⟨⟨rfl, ?_, ⟨done ++ [other], by simp⟩, _, rfl⟩,
        Sched.ptrNext_setPtrNext state name _⟩
      exact (List.mem_cons.mp inRest).resolve_left different
  · rintro _ _ ⟨-, inRest, -⟩
    cases inRest
  · exact ⟨rfl, member, ⟨[], rfl⟩, _, (Sched.setPtrNext_self state name).symm⟩
  · rintro ⟨var, found⟩ after ⟨rfl, rfl, holds⟩
    exact ⟨rfl, holds⟩

/-- A loop that goes on after the match ends without an environment. -/
theorem search_continues (represents : Represents state.links (state.queue name) values)
    (few : values.length ≤ nenv) (member : env ∈ values) (own : state.envId env = envId)
    (unique : ∀ other ∈ values, state.envId other = envId → other = env)
    (acts : ∀ next, Ensures (act env) (state.setPtrNext name next) (fun _ after =>
      Represents after.links (after.queue name) (values.erase env) ∧
        (after.queue name).ptrNext = next ∧
        (∀ other ∈ values.erase env, after.envId other = state.envId other) ∧ result after)
      raised) :
    Ensures (foreachEnv name false fun found env => do
      let state ← get
      if state.envId env = envId then
        act env
        return .yield true
      else return .yield found) state
      (fun pair after => pair = (none, true) ∧
        ∃ middle next, result middle ∧ after = middle.setPtrNext name next) raised := by
  have nodup := represents.nodup
  have absent : ∀ other ∈ values.erase env, state.envId other ≠ envId := by
    intro other inErased equal
    have same := unique other (List.mem_of_mem_erase inErased) equal
    rw [same] at inErased
    exact nodup.not_mem_erase inErased
  refine (foreachEnv_ensures
    (fun rest found current =>
      (found = false ∧ env ∈ rest ∧ (∃ done, values = done ++ rest) ∧
        ∃ next, current = state.setPtrNext name next) ∨
      (found = true ∧ (∃ done, values.erase env = done ++ rest) ∧
        ∃ middle next, current = middle.setPtrNext name next ∧
          Represents middle.links (middle.queue name) (values.erase env) ∧
          (∀ other ∈ values.erase env, middle.envId other = state.envId other) ∧ result middle))
    (fun var found after => var = none ∧ found = true ∧
      ∃ middle next, result middle ∧ after = middle.setPtrNext name next)
    represents few ?_ ?_ ?_ ?_).mono ?_ fun _ holds => holds
  · rintro other rest _ _ (⟨rfl, -, ⟨done, rfl⟩, next, rfl⟩ |
      ⟨rfl, ⟨done, equal⟩, middle, next, rfl, left, -, -⟩)
    · rw [Sched.links_setPtrNext]
      exact represents.next_of_split
    · rw [Sched.links_setPtrNext]
      rw [equal] at left
      exact left.next_of_split
  · rintro other rest _ _ (⟨rfl, inRest, ⟨done, rfl⟩, next, rfl⟩ |
      ⟨rfl, ⟨done, equal⟩, middle, next, rfl, left, ids, holds⟩)
    · rw [Sched.setPtrNext_setPtrNext]
      have kept := (Sched.setPtrNext_kept state name rest[0]?).envId
      refine Ensures.bind_get (Ensures.ite (fun isMatch => ?_) fun noMatch => ?_)
      · rw [kept] at isMatch
        have same : other = env := unique other (by simp) isMatch
        subst same
        refine Ensures.bind (acts _) ?_
        rintro _ after ⟨left, scratch, ids, holds⟩
        have notBefore : other ∉ done := by
          rw [List.nodup_append] at nodup
          exact fun before => nodup.2.2 other before other (by simp) rfl
        refine Ensures.pure ⟨.inr ⟨rfl, ⟨done, ?_⟩, after, _,
          (Sched.setPtrNext_self after name).symm, left, ids, holds⟩, scratch⟩
        rw [List.erase_append_right _ notBefore, List.erase_cons_head]
      · rw [kept] at noMatch
        have different : env ≠ other := by
          rintro rfl
          exact noMatch own
        refine Ensures.pure ⟨.inl ⟨rfl, ?_, ⟨done ++ [other], by simp⟩, _, rfl⟩,
          Sched.ptrNext_setPtrNext state name _⟩
        exact (List.mem_cons.mp inRest).resolve_left different
    · rw [Sched.setPtrNext_setPtrNext]
      have inErased : other ∈ (values.erase env) := by simp [equal]
      have kept := (Sched.setPtrNext_kept middle name rest[0]?).envId
      refine Ensures.bind_get (Ensures.ite (fun isMatch => ?_) fun _ => ?_)
      · rw [kept, ids other inErased] at isMatch
        exact absurd isMatch (absent other inErased)
      · exact Ensures.pure ⟨.inr ⟨rfl, ⟨done ++ [other], by simp [equal]⟩, middle, _, rfl, left,
          ids, holds⟩, Sched.ptrNext_setPtrNext middle name _⟩
  · rintro _ _ (⟨-, inRest, -⟩ | ⟨rfl, -, middle, next, rfl, left, ids, holds⟩)
    · cases inRest
    · exact ⟨rfl, rfl, middle, none, holds, Sched.setPtrNext_setPtrNext middle name next none⟩
  · exact .inl ⟨rfl, member, ⟨[], rfl⟩, _, (Sched.setPtrNext_self state name).symm⟩
  · rintro ⟨var, found⟩ after ⟨rfl, rfl, rest⟩
    exact ⟨rfl, rest⟩

section Levels

variable {visit : Nat → Scheduling (Option Nat × Bool)}
variable {search : List Nat → Scheduling (Option Nat × Bool)} {levels : List Nat} {level : Nat}

/-- A search through the ready queues finds nothing when no queue has a match. -/
theorem levels_absent (empty : search [] = pure (none, false))
    (step : ∀ first rest, search (first :: rest) = visit first >>= fun searched =>
      if searched.2 = true then pure searched else search rest)
    (skips : ∀ other ∈ levels, ∀ current, Sched.Scanned state current →
      Ensures (visit other) current
        (fun pair after => pair = (none, false) ∧ Sched.Scanned current after) raised) :
    Ensures (search levels) state
      (fun pair after => pair = (none, false) ∧ Sched.Scanned state after) raised := by
  induction levels generalizing state with
  | nil =>
      rw [empty]
      exact Ensures.pure ⟨rfl, Sched.Scanned.refl state⟩
  | cons first rest induction =>
      rw [step]
      refine Ensures.bind (skips first List.mem_cons_self state (Sched.Scanned.refl state)) ?_
      rintro pair middle ⟨rfl, scanned⟩
      refine (induction fun other member current further =>
        skips other (List.mem_cons_of_mem _ member) current (scanned.trans further)).mono ?_
        fun _ holds => holds
      rintro pair after ⟨isNone, further⟩
      exact ⟨isNone, scanned.trans further⟩

/-- The search ends at the queue with the match. -/
theorem levels_found {found : Option Nat × Bool → Sched → Prop}
    (step : ∀ first rest, search (first :: rest) = visit first >>= fun searched =>
      if searched.2 = true then pure searched else search rest)
    (isLevel : level ∈ levels)
    (skips : ∀ other ∈ levels, other ≠ level → ∀ current, Sched.Scanned state current →
      Ensures (visit other) current
        (fun pair after => pair = (none, false) ∧ Sched.Scanned current after) raised)
    (finds : ∀ current, Sched.Scanned state current →
      Ensures (visit level) current (fun pair after => pair.2 = true ∧ found pair after) raised) :
    Ensures (search levels) state found raised := by
  induction levels generalizing state with
  | nil => cases isLevel
  | cons first rest induction =>
      rw [step]
      by_cases here : first = level
      · subst here
        refine Ensures.bind (finds state (Sched.Scanned.refl state)) ?_
        rintro pair after ⟨isFound, holds⟩
        rw [if_pos isFound]
        exact Ensures.pure holds
      · refine Ensures.bind (skips first List.mem_cons_self here state
          (Sched.Scanned.refl state)) ?_
        rintro pair middle ⟨rfl, scanned⟩
        exact induction ((List.mem_cons.mp isLevel).resolve_left (Ne.symm here))
          (fun other member different current further =>
            skips other (List.mem_cons_of_mem _ member) different current
              (scanned.trans further))
          (fun current further => finds current (scanned.trans further))

end Levels

end Loops

/-! ## Distinct environments -/

/-- The lists of environments, with `count` ready queues. -/
def Known (count : Nat) : QueueName → Prop
  | .ready level => level < count
  | _ => True

theorem slots_few {slots : List Nat} (nodup : slots.Nodup) (bounded : ∀ slot ∈ slots, slot < nenv) :
    slots.length ≤ nenv := by
  have within : slots ⊆ List.range nenv := fun slot member =>
    List.mem_range.mpr (bounded slot member)
  have bound := (nodup.subperm within).length_le
  rwa [List.length_range] at bound

/-- The environments that are new, ready, exited or running. -/
def Live (state : Sched) (contents : QueueName → List Nat) (env : Nat) : Prop :=
  state.curenv = some env ∨
    ∃ name, name ≠ .free ∧ Known state.numOfReadyQueues name ∧ env ∈ contents name

/-- Disjoint lists and a running environment in none of them; live environments have
different ids. -/
structure Queues (state : Sched) (contents : QueueName → List Nat) : Prop where
  holds : state.Holds (Known state.numOfReadyQueues) contents
  slots : ∀ name, Known state.numOfReadyQueues name → ∀ env ∈ contents name, env < nenv
  outside : ∀ env, state.curenv = some env → ∀ name, Known state.numOfReadyQueues name →
    env ∉ contents name
  ids : ∀ left right, Live state contents left → Live state contents right →
    state.envId left = state.envId right → left = right

namespace Queues

variable {state after : Sched} {contents : QueueName → List Nat} {name : QueueName} {env : Nat}
variable {envId : BitVec 32}

theorem live (known : Known state.numOfReadyQueues name) (notFree : name ≠ .free)
    (member : env ∈ contents name) : Live state contents env :=
  .inr ⟨name, notFree, known, member⟩

theorem few (queues : Queues state contents) (known : Known state.numOfReadyQueues name) :
    (contents name).length ≤ nenv :=
  slots_few (queues.holds.represents name known).nodup (queues.slots name known)

/-- An id that an environment has elsewhere is not found in a queue. -/
theorem absent (queues : Queues state contents) (known : Known state.numOfReadyQueues name)
    (notFree : name ≠ .free) (isLive : Live state contents env) (outside : env ∉ contents name) :
    ∀ other ∈ contents name, state.envId other ≠ state.envId env := by
  intro other member same
  have equal := queues.ids other env (live known notFree member) isLive same
  exact outside (equal ▸ member)

theorem unique (queues : Queues state contents) (known : Known state.numOfReadyQueues name)
    (notFree : name ≠ .free) (isLive : Live state contents env) :
    ∀ other ∈ contents name, state.envId other = state.envId env → other = env :=
  fun other member => queues.ids other env (live known notFree member) isLive

/-- An environment is in one list only. -/
theorem elsewhere (queues : Queues state contents) {other : QueueName}
    (known : Known state.numOfReadyQueues name) (otherKnown : Known state.numOfReadyQueues other)
    (different : name ≠ other) (member : env ∈ contents name) : env ∉ contents other :=
  queues.holds.apart name other known otherKnown different env member

/-- A search that finds nothing leaves everything in place. -/
theorem scanned (queues : Queues state contents) (scanned : Sched.Scanned state after) :
    Queues after contents := by
  have kept := scanned.kept
  have sameLive : ∀ slot, Live after contents slot → Live state contents slot := by
    intro slot isLive
    rw [Live, kept.curenv, kept.numOfReadyQueues] at isLive
    exact isLive
  refine ⟨?_, ?_, ?_, ?_⟩
  · rw [kept.numOfReadyQueues]
    exact scanned.holds _ _ queues.holds
  · rw [kept.numOfReadyQueues]
    exact queues.slots
  · rw [kept.curenv, kept.numOfReadyQueues]
    exact queues.outside
  · intro left right leftLive rightLive same
    rw [kept.envId] at same
    exact queues.ids left right (sameLive left leftLive) (sameLive right rightLive) same

/-! ### The ready queues -/

section Levels

variable {visit : Nat → Scheduling (Option Nat × Bool)} {raised : Ending → Prop}
variable {search : List Nat → Scheduling (Option Nat × Bool)} {levels : List Nat} {level : Nat}

/-- What the loop over one ready queue does when the id is not there. -/
def Skips (visit : Nat → Scheduling (Option Nat × Bool)) (contents : QueueName → List Nat)
    (envId : BitVec 32) (raised : Ending → Prop) : Prop :=
  ∀ current other, Queues current contents → other < current.numOfReadyQueues →
    (∀ env ∈ contents (.ready other), current.envId env ≠ envId) →
    Ensures (visit other) current
      (fun pair after => pair = (none, false) ∧ Sched.Scanned current after) raised

theorem absent_everywhere (queues : Queues state contents) (empty : search [] = pure (none, false))
    (step : ∀ first rest, search (first :: rest) = visit first >>= fun searched =>
      if searched.2 = true then pure searched else search rest)
    (known : ∀ other ∈ levels, other < state.numOfReadyQueues)
    (absent : ∀ level ∈ levels, ∀ other ∈ contents (.ready level), state.envId other ≠ envId)
    (skips : Skips visit contents envId raised) :
    Ensures (search levels) state
      (fun pair after => pair = (none, false) ∧ Sched.Scanned state after) raised := by
  apply levels_absent empty step
  intro other isOther current scanned
  apply skips current other (queues.scanned scanned)
  · rw [scanned.kept.numOfReadyQueues]
    exact known other isOther
  · rw [scanned.kept.envId]
    exact absent other isOther

theorem found_somewhere (queues : Queues state contents) {reached : Sched → Prop}
    (step : ∀ first rest, search (first :: rest) = visit first >>= fun searched =>
      if searched.2 = true then pure searched else search rest)
    (known : ∀ other ∈ levels, other < state.numOfReadyQueues) (isLevel : level ∈ levels)
    (member : env ∈ contents (.ready level))
    (skips : Skips visit contents (state.envId env) raised)
    (finds : ∀ current, Sched.Scanned state current → level < current.numOfReadyQueues →
      current.envId env = state.envId env → Ensures (visit level) current
        (fun pair after => pair = (some env, true) ∧ reached after) raised) :
    Ensures (search levels) state (fun pair after => pair = (some env, true) ∧ reached after)
      raised := by
  have bound : Known state.numOfReadyQueues (.ready level) := known level isLevel
  apply levels_found step isLevel
  · intro other isOther different current scanned
    have otherKnown : Known state.numOfReadyQueues (.ready other) := known other isOther
    have outside : env ∉ contents (.ready other) :=
      queues.elsewhere bound otherKnown (by simpa using Ne.symm different) member
    apply skips current other (queues.scanned scanned)
    · rw [scanned.kept.numOfReadyQueues]
      exact otherKnown
    · rw [scanned.kept.envId]
      exact queues.absent otherKnown (by simp) (live bound (by simp) member) outside
  · intro current scanned
    have inCurrent : level < current.numOfReadyQueues := by
      rw [scanned.kept.numOfReadyQueues]
      exact bound
    refine (finds current scanned inCurrent (congrFun scanned.kept.envId env)).mono ?_
      fun _ holds => holds
    rintro pair after ⟨rfl, holds⟩
    exact ⟨rfl, rfl, holds⟩

end Levels

end Queues

section Removal

variable {state after : Sched} {contents taken : QueueName → List Nat} {name : QueueName}
variable {env : Nat}

def without (contents : QueueName → List Nat) (name : QueueName) (env : Nat) :
    QueueName → List Nat :=
  Function.update contents name ((contents name).erase env)

/-- The lists are `taken` now, and only the status of `env` has changed. -/
structure Removed (state after : Sched) (taken : QueueName → List Nat) (env : Nat) : Prop where
  holds : after.Holds (Known state.numOfReadyQueues) taken
  curenv : after.curenv = state.curenv
  envId : after.envId = state.envId
  levels : after.numOfReadyQueues = state.numOfReadyQueues
  status : ∀ other, other ≠ env → after.envStatus other = state.envStatus other

theorem Removed.ofScanned (queues : Queues state contents) (scanned : Sched.Scanned state after)
    (env : Nat) : Removed state after contents env :=
  ⟨scanned.holds _ _ queues.holds, scanned.kept.curenv, scanned.kept.envId,
    scanned.kept.numOfReadyQueues, fun other _ => congrFun scanned.kept.envStatus other⟩

theorem Removed.afterScan {middle : Sched} (removed : Removed middle after taken env)
    (scanned : Sched.Scanned state middle) : Removed state after taken env := by
  have kept := scanned.kept
  refine ⟨?_, removed.curenv.trans kept.curenv, removed.envId.trans kept.envId,
    removed.levels.trans kept.numOfReadyQueues,
    fun other different => (removed.status other different).trans (congrFun kept.envStatus other)⟩
  rw [← kept.numOfReadyQueues]
  exact removed.holds

theorem Removed.setPtrNext (removed : Removed state after taken env) (name : QueueName)
    (next : Option Nat) : Removed state (after.setPtrNext name next) taken env := by
  have kept := Sched.setPtrNext_kept after name next
  refine ⟨removed.holds.setPtrNext name next, kept.curenv.trans removed.curenv,
    kept.envId.trans removed.envId, kept.numOfReadyQueues.trans removed.levels, ?_⟩
  rw [kept.envStatus]
  exact removed.status

theorem Removed.setEnvStatus (removed : Removed state after taken env) (status : EnvStatus) :
    Removed state (after.setEnvStatus env status) taken env :=
  ⟨removed.holds, removed.curenv, removed.envId, removed.levels, fun other different =>
    (Function.update_of_ne different _ _).trans (removed.status other different)⟩

/-- The removal of an environment during a loop. -/
theorem removeFromQueue_removed (queues : Queues state contents)
    (known : Known state.numOfReadyQueues name) (member : env ∈ contents name)
    (other : QueueName) (scratch : Option Nat) :
    Removed state ((state.setPtrNext other scratch).removeFromQueue name env)
      (without contents name env) env := by
  have few := queues.few known
  have small : nenv < 2 ^ 32 := by decide
  have kept := (Sched.setPtrNext_kept state other scratch).trans
    (Sched.removeFromQueue_kept (state.setPtrNext other scratch) name env)
  exact ⟨(queues.holds.setPtrNext other scratch).removeFromQueue known member (by omega),
    kept.curenv, kept.envId, kept.numOfReadyQueues, fun slot _ => congrFun kept.envStatus slot⟩

/-- The scratch field stays as it is in the removal. -/
theorem removeFromQueue_ptrNext (queues : Queues state contents)
    (known : Known state.numOfReadyQueues name) (member : env ∈ contents name)
    (next : Option Nat) :
    (((state.setPtrNext name next).removeFromQueue name env).queue name).ptrNext = next := by
  have represents := (queues.holds.setPtrNext name next).represents name known
  rw [Sched.removeFromQueue, Sched.queue_withList, Function.update_self]
  exact (represents.listRemove_ptrNext member).trans (Sched.ptrNext_setPtrNext state name next)

/-- An environment that was taken out of a queue is in no list. -/
theorem without_fresh (queues : Queues state contents)
    (known : Known state.numOfReadyQueues name) (member : env ∈ contents name) :
    ∀ other, Known state.numOfReadyQueues other → env ∉ without contents name env other := by
  intro other otherKnown
  by_cases same : other = name
  · subst same
    rw [without, Function.update_self]
    exact (queues.holds.represents other known).nodup.not_mem_erase
  · rw [without, Function.update_of_ne same]
    exact queues.elsewhere known otherKnown (Ne.symm same) member

theorem curenvId_some {raised : Ending → Prop} (running : state.curenv = some env) :
    Ensures curenvId state (fun found after => found = state.envId env ∧ after = state)
      raised := by
  refine Ensures.bind_get ?_
  rw [running]
  exact ⟨rfl, rfl⟩

theorem curenvId_none (idle : state.curenv = none) :
    Ensures curenvId state (fun _ _ => False) (· = .failed .badPointer) := by
  refine Ensures.bind_get ?_
  rw [idle]
  exact rfl

end Removal

end FosKernel
