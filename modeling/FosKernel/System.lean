import FosKernel.Boot

/-! # Runs of the kernel

The calls that reach the memory manager, and the states that sequences of them lead
to. Faults and the memory system calls concern the running environment.
-/

namespace FosKernel

open LinkedList

inductive Call
  | allocateFrame
  | freeFrame (frame : Nat)
  | mapFrame (env frame address : Nat) (perm : Word)
  | unmapFrame (env address : Nat)
  | kmalloc (size : Nat)
  | kfree (address : Nat)
  | envCreate (env : Nat) (program : Program) (pageWSSize : Nat)
  /-- `env_run`: another environment runs. -/
  | schedule (env : Nat)
  | fault (address : Nat)
  | sysAllocateMem (address size : Nat)
  | sysFreeMem (address size : Nat)
  | read (address : Nat)
  | write (address : Nat) (word : Word)
  | exit (env : Nat)

def discard (action : Kernel α) : Kernel Unit := do
  let _ ← action

def Call.run : Call → Kernel Unit
  | .allocateFrame => discard FosKernel.allocateFrame
  | .freeFrame frame => FosKernel.freeFrame frame
  | .mapFrame env frame address perm => FosKernel.mapFrame (.env env) frame address perm
  | .unmapFrame env address => FosKernel.unmapFrame (.env env) address
  | .kmalloc size => discard (FosKernel.kmalloc size)
  | .kfree address => FosKernel.kfree address
  | .envCreate env program pageWSSize => FosKernel.envCreate env program pageWSSize
  | .schedule env => modify fun state => { state with curenv := env }
  | .fault address => faultHandler address
  | .sysAllocateMem address size => FosKernel.sysAllocateMem address size
  | .sysFreeMem address size => FosKernel.sysFreeMem address size
  | .read address => do discard (userRead (← get).curenv address)
  | .write address word => do userWrite (← get).curenv address word
  | .exit env => schedInsertExit env

/-- The states reached from boot by returning calls that `allowed` admits. -/
inductive Reachable (layout : BootLayout) (contents : BootContents)
    (allowed : State → Call → Prop) : State → Prop
  | boot {state} :
      initializePaging layout.kernelFrames (layout.beforePaging contents) = .ok ((), state) →
      Reachable layout contents allowed state
  | call {state call final} :
      Reachable layout contents allowed state → allowed state call →
      call.run state = .ok ((), final) → Reachable layout contents allowed final

/-- The calls in order; `none` if one of them is not admitted or stops. -/
def runCalls (admits : State → Call → Bool) : List Call → State → Option State
  | [], state => some state
  | call :: calls, state =>
      if admits state call then
        match call.run state with
        | .ok (_, final) => runCalls admits calls final
        | .error _ => none
      else none

theorem Reachable.calls {layout : BootLayout} {contents : BootContents}
    {allowed : State → Call → Prop} {admits : State → Call → Bool}
    (sound : ∀ state call, admits state call = true → allowed state call) {calls : List Call}
    {state final : State} (reachable : Reachable layout contents allowed state)
    (ran : runCalls admits calls state = some final) :
    Reachable layout contents allowed final := by
  induction calls generalizing state with
  | nil =>
      cases ran
      exact reachable
  | cons call calls induction =>
      rw [runCalls] at ran
      split at ran
      · next admitted =>
          split at ran
          · next returned => exact induction (.call reachable (sound _ _ admitted) returned) ran
          · cases ran
      · cases ran

/-- `LIST_FOREACH` meets the frame. -/
inductive OnList (links : Nat → Link Nat) (head : ListHead Nat) : Nat → Prop
  | first {frame} : head.first = some frame → OnList links head frame
  | next {frame other} : OnList links head frame → (links frame).next = some other →
      OnList links head other

theorem onList_iff {links : Nat → Link Nat} {head : ListHead Nat} {frames : List Nat}
    (represents : Represents links head frames) {frame : Nat} :
    OnList links head frame ↔ frame ∈ frames := by
  constructor
  · intro onList
    induction onList with
    | first first => exact represents.first_mem first
    | next _ next induction =>
        rcases List.getElem?_of_mem induction with ⟨position, found⟩
        rw [(represents.linked position _ found).1] at next
        exact List.mem_of_getElem? next
  · intro member
    rcases List.getElem?_of_mem member with ⟨position, found⟩
    induction position generalizing frame with
    | zero => exact .first (represents.first.trans found)
    | succ position induction =>
        have bound : position < frames.length := by
          have := (List.getElem?_eq_some_iff.mp found).1
          omega
        have before : frames[position]? = some frames[position] :=
          List.getElem?_eq_getElem bound
        refine .next (induction (List.mem_of_getElem? before) before) ?_
        rw [(represents.linked position _ before).1, found]

end FosKernel
