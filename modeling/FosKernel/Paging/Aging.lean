import FosKernel.Paging.FaultHandler

/-! # Time stamps

`update_WS_time_stamps` of `kern/sched.c`, which the clock interrupt and the page-fault trap
call under LRU replacement.
-/

namespace FosKernel

/-- `__TWS_MAX_SIZE`. -/
def twsMaxSize : Nat := 50

def Env.setTimeStamp (env : Env) (index timeStamp : Nat) : Env :=
  env.setElement index { env.ptrPageWorkingSet index with timeStamp }

/-- The loop over the pages. -/
def updatePageTimeStamp (env index : Nat) : Kernel Unit := do
  let element := ((← get).envs env).ptrPageWorkingSet index
  if element.empty then return
  let perm ← observe fun state => ptGetPagePermissions state env element.virtualAddress
  let oldTimeStamp := element.timeStamp
  if hasPerm perm permUsed then do
    modify fun state => state.setEnv env
      ((state.envs env).setTimeStamp index (oldTimeStamp >>> 2 ||| 0x80000000))
    ptSetPagePermissions env element.virtualAddress 0 permUsed
  else
    modify fun state => state.setEnv env
      ((state.envs env).setTimeStamp index (oldTimeStamp >>> 2))

def pdIsTableUsed (state : State) (env address : Nat) : Bool :=
  hasPerm (state.pageDirectory (.env env) (pdx address)) permUsed

def pdSetTableUnused (env address : Nat) : Kernel Unit :=
  modify fun state => state.setDirectoryEntry (.env env) (pdx address)
    (state.pageDirectory (.env env) (pdx address) &&& ~~~permUsed)

/-- The loop over the tables. The array `__ptr_tws` is not part of `Env`. -/
def updateTableTimeStamps (env : Nat) :
    List Nat → (Nat → WorkingSetElement) → Kernel (Nat → WorkingSetElement)
  | [], tables => return tables
  | index :: indices, tables => do
      let element := tables index
      if element.empty then updateTableTimeStamps env indices tables
      else do
        let oldTimeStamp := element.timeStamp
        if pdIsTableUsed (← get) env element.virtualAddress then do
          pdSetTableUnused env element.virtualAddress
          updateTableTimeStamps env indices (Function.update tables index
            { element with timeStamp := oldTimeStamp >>> 2 ||| 0x80000000 })
        else
          updateTableTimeStamps env indices (Function.update tables index
            { element with timeStamp := oldTimeStamp >>> 2 })

/-- `curenv` is not null here. -/
def updateWSTimeStamps (tables : Nat → WorkingSetElement) :
    Kernel (Nat → WorkingSetElement) := do
  let env := (← get).curenv
  let size := ((← get).envs env).pageWSMaxSize
  Kernel.forEach (updatePageTimeStamp env) (List.range size)
  updateTableTimeStamps env (List.range twsMaxSize) tables

/-- The page-fault branch of `trap_dispatch`. -/
def trapPageFault (isLRU : Bool) (tables : Nat → WorkingSetElement) (faultVa : Nat) :
    Kernel (Nat → WorkingSetElement) := do
  let updated ← if isLRU then updateWSTimeStamps tables else pure tables
  faultHandler faultVa
  return updated

end FosKernel
