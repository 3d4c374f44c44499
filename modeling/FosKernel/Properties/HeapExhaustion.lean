import FosKernel.Properties.HeapHistory

/-! # An exhausted kernel heap

What the functions that take tables from the kernel heap do when `kmalloc` returns a null
pointer.
-/

namespace FosKernel.HeapExhaustion

section Exhausted

variable {state grown : State} {directory : Directory} {env address : Nat}
variable {page : Nat → Word}

/-- No directory, table or page has changed. -/
structure Unchanged (before after : State) : Prop where
  pageDirectory : after.pageDirectory = before.pageDirectory
  diskDirectory : after.diskDirectory = before.diskDirectory
  envs : after.envs = before.envs
  bootTables : after.bootTables = before.bootTables
  memory : after.memory = before.memory
  sectors : after.sectors = before.sectors

/-- The call returns, says that it failed and has done nothing. -/
def Reports (call : Kernel α) (failed : α → Prop) (state : State) : Prop :=
  ∃ result final, call state = .ok (result, final) ∧ failed result ∧ Unchanged state final

/-- The page file has no table for the page yet. -/
def NeedsTable (state : State) (env address : Nat) : Prop :=
  (state.envs env).diskEnvPgdir = 0 ∨ state.diskDirectory env (pdx address) = 0

def CreateReports (state : State) (directory : Directory) (address : Nat) : Prop :=
  Reports (createPageTable directory address) (· = .null) state

/-- Both functions that add a page say so when they cannot get a table for it. -/
structure AddReports (state : State) (env address : Nat) (page : Nat → Word) : Prop where
  addPage : NeedsTable state env address →
    Reports (pfAddEnvPage env address page) (· ≠ .success) state
  addEmpty : NeedsTable state env address → ∀ initializeByZero,
    Reports (pfAddEmptyEnvPage env address initializeByZero) (· ≠ .success) state

/-! ## Null pointers -/

/-- A call that cannot return reports nothing. -/
theorem not_reports {call : Kernel α} {failed : α → Prop} {stop : Stop}
    (stopped : call state = .error stop) : ¬Reports call failed state := by
  rintro ⟨result, final, returned, -⟩
  rw [stopped] at returned
  cases returned

/-- `create_page_table` goes on with the null pointer. -/
theorem createPageTable_stops (exhausted : kmalloc 4096 state = .ok (0, grown)) :
    createPageTable directory address state = .error .badPointer := by
  rw [createPageTable, createPageTableWith, Kernel.bind_run exhausted]
  rfl

/-- A disk page directory can only be there already. -/
theorem getDiskPageDirectory_exhausted (exhausted : kmalloc 4096 state = .ok (0, grown))
    {final : State} (returned : getDiskPageDirectory env state = .ok ((), final)) :
    (state.envs env).diskEnvPgdir ≠ 0 ∧ final = state := by
  have opened := Kernel.bind_get_ok.mp returned
  rcases Kernel.ite_ok.mp opened with ⟨present, stayed⟩ | ⟨-, created⟩
  · exact ⟨present, (Kernel.pure_ok.mp stayed).2.symm⟩
  · rcases Kernel.bind_ok.mp created with ⟨address, middle, allocated, rest⟩
    rw [exhausted] at allocated
    cases allocated
    rcases Kernel.bind_ok.mp rest with ⟨_, _, thrown, -⟩
    exact (Kernel.throw_ok.mp thrown).elim

/-- A disk page table can only be there already; else its pointer is null. -/
theorem getDiskPageTable_exhausted (exhausted : kmalloc 4096 state = .ok (0, grown))
    {pointer : TablePointer} {final : State}
    (returned : getDiskPageTable env address true state = .ok (pointer, final)) :
    state.diskDirectory env (pdx address) ≠ 0 ∨ pointer = .null := by
  rcases Kernel.bind_observe_ok.mp returned with ⟨located, -, looked⟩
  have looked := Kernel.bind_get_ok.mp looked
  rcases Kernel.ite_ok.mp looked with ⟨missing, created⟩ | ⟨present, -⟩
  · rw [if_pos rfl] at created
    rcases Kernel.bind_ok.mp created with ⟨table, middle, allocated, rest⟩
    rw [exhausted] at allocated
    cases allocated
    rw [if_pos rfl] at rest
    exact .inr (Kernel.pure_ok.mp rest).1.symm
  · exact .inl present

/-- The callers ignore what went wrong and follow the null pointer. -/
theorem pfAddFrame_exhausted (exhausted : kmalloc 4096 state = .ok (0, grown))
    {result : Option Word} {final : State}
    (returned : pfAddFrame env address state = .ok (result, final)) :
    ¬NeedsTable state env address := by
  rcases Kernel.ite_ok.mp returned with ⟨-, stopped⟩ | ⟨-, rest⟩
  · rcases Kernel.bind_ok.mp stopped with ⟨_, _, thrown, -⟩
    exact (Kernel.throw_ok.mp thrown).elim
  rcases Kernel.bind_ok.mp rest with ⟨_, opened, directory, located⟩
  rcases getDiskPageDirectory_exhausted exhausted directory with ⟨present, rfl⟩
  rcases Kernel.bind_ok.mp located with ⟨pointer, middle, table, allocating⟩
  rcases getDiskPageTable_exhausted exhausted table with entered | rfl
  · rintro (none | empty)
    · exact present none
    · exact entered empty
  · rcases Kernel.bind_observe_ok.mp allocating with ⟨_, loaded, -⟩
    cases loaded

theorem pfAddEnvPage_exhausted (exhausted : kmalloc 4096 state = .ok (0, grown))
    {result : PageFileCode} {final : State}
    (returned : pfAddEnvPage env address page state = .ok (result, final)) :
    ¬NeedsTable state env address := by
  rcases Kernel.bind_ok.mp returned with ⟨found, middle, added, -⟩
  exact pfAddFrame_exhausted exhausted added

end Exhausted

/-! ## A placement strategy that is not there -/

/-- Booted memory after the command that selects first fit, for which `kmalloc` returns a
null pointer. -/
def sampleFirstFit : State := { sampleState with kHeapPlacementStrategy := .firstFit }

theorem sampleFirstFit_exhausted :
    kmalloc 4096 sampleFirstFit =
      .ok (0, sampleFirstFit.withHeapRecord (requestRecord sampleFirstFit 4096)) := rfl

end FosKernel.HeapExhaustion
