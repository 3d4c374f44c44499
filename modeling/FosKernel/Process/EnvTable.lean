import FosKernel.Queue
import Mathlib.Data.BitVec

/-! # The table of environments

Allocation and release of the slots of `envs` (`kern/user_environment.c`) and the
lookup of an environment by its id (`kern/helpers.c`). An environment is given by the
index of its slot.
-/

namespace FosKernel

open LinkedList

/-- `sizeof(struct Env)` on the i386: a trap frame of 68 bytes, fourteen words up to the
table working set, 50 elements of 12 bytes, eight counters, 64 bytes of program name
and two words. -/
def sizeofEnv : Nat := 68 + 14 * 4 + 50 * 12 + 8 * 4 + 64 + 2 * 4

/-- `(PTSIZE / 4) / sizeof(struct Env)`. -/
def nenv : Nat := 4096 * 1024 / 4 / sizeofEnv

example : nenv = 1266 := by decide

def envGenShift : Nat := 12

inductive EnvStatus
  | free | ready | runnable | blocked | new | exit | unknown
  deriving DecidableEq

/-- The parts of `envs` that identify environments; the links belong to
`prev_next_info`, which all lists of environments share. -/
structure EnvTable where
  links : Nat → Link Nat
  envFreeList : ListHead Nat
  envId : Nat → BitVec 32
  envParentId : Nat → BitVec 32
  envStatus : Nat → EnvStatus
  curenv : Option Nat

namespace EnvTable

def freeList (table : EnvTable) : ListState Nat := ⟨table.links, table.envFreeList⟩

def withFreeList (table : EnvTable) (result : ListState Nat) : EnvTable :=
  { table with links := result.links, envFreeList := result.head }

def setStatus (table : EnvTable) (env : Nat) (status : EnvStatus) : EnvTable :=
  { table with envStatus := Function.update table.envStatus env status }

/-- The table in zeroed memory. -/
def zero : EnvTable :=
  ⟨fun _ => Link.null, ⟨none, none, none, 0⟩, fun _ => 0, fun _ => 0, fun _ => .free, none⟩

/-- The body of the loop of `env_init`. -/
def initSlot (table : EnvTable) (env : Nat) : EnvTable :=
  let table := table.setStatus env .free
  let table := { table with envId := Function.update table.envId env 0 }
  table.withFreeList (listInsertHead table.freeList env)

/-- `env_init` counts down from the last slot. -/
def envInit (table : EnvTable) : EnvTable :=
  (List.range nenv).reverse.foldl initSlot table

/-- `allocate_environment`: the slot, or `none` for `E_NO_FREE_ENV`. -/
def allocateEnvironment (table : EnvTable) : Option (Nat × EnvTable) :=
  table.envFreeList.first.map fun env => (env, table.setStatus env .unknown)

/-- The id that `complete_environment_initialization` makes from the old one. -/
def nextId (old : BitVec 32) (env : Nat) : BitVec 32 :=
  let generation := (old + 1#32 <<< envGenShift) &&& ~~~BitVec.ofNat 32 (nenv - 1)
  let generation := if generation.toInt ≤ 0 then 1#32 <<< envGenShift else generation
  generation ||| BitVec.ofNat 32 env

/-- `complete_environment_initialization`, without the parts that concern memory and
registers. -/
def completeEnvironmentInitialization (table : EnvTable) (env : Nat) : EnvTable :=
  let table := { table with
    envId := Function.update table.envId env (nextId (table.envId env) env) }
  let parent := match table.curenv with
    | none => 0
    | some parent => table.envId parent
  let table := { table with envParentId := Function.update table.envParentId env parent }
  let table := table.setStatus env .new
  table.withFreeList (listRemove table.freeList env)

/-- `free_environment` clears the whole slot first. -/
def freeEnvironment (table : EnvTable) (env : Nat) : EnvTable :=
  let table := { table with
    links := Function.update table.links env Link.null
    envId := Function.update table.envId env 0
    envParentId := Function.update table.envParentId env 0 }
  let table := table.setStatus env .free
  table.withFreeList (listInsertHead table.freeList env)

/-- `ENVX`. -/
def envx (envid : BitVec 32) : Nat := (envid &&& BitVec.ofNat 32 (nenv - 1)).toNat

/-- What `envid2env` returns: the environment stored in `*env_store`, which may be null
for the id zero, or `E_BAD_ENV`. A check of permissions without a running environment
dereferences a null pointer. -/
inductive EnvLookup
  | found (env : Option Nat)
  | badEnv
  | badPointer
  deriving DecidableEq

def envid2env (table : EnvTable) (envid : BitVec 32) (checkperm : Bool) : EnvLookup :=
  if envid = 0 then .found table.curenv
  else
    let env := envx envid
    if table.envStatus env = .free ∨ table.envId env ≠ envid then .badEnv
    else if checkperm ∧ some env ≠ table.curenv then
      match table.curenv with
      | none => .badPointer
      | some current =>
          if table.envParentId env ≠ table.envId current then .badEnv else .found (some env)
    else .found (some env)

end EnvTable

end FosKernel
