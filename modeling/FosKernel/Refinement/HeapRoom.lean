import FosKernel.Refinement.PageCalls
import FosKernel.Refinement.UserMemory

/-! # Room in the kernel heap

Adding a page to the page file takes at most two pages of the kernel heap. As long as there
is room from the next-fit pointer on, the reverse lookup finds them.
-/

namespace FosKernel.Roomy

open Kernel

variable {ghost : Ghost} {state final : State} {free : List Nat} {spare env address : Nat}

/-- Getting the disk page directory takes a page at most. -/
theorem getDiskPageDirectory (roomy : Roomy state (spare + 1))
    (consistent : Consistent ghost state.view) (layout : DiskLayout state)
    (returned : getDiskPageDirectory env state = .ok ((), final)) : Roomy final spare := by
  rcases getDiskPageDirectory_cases consistent layout returned with
    ⟨-, rfl⟩ | ⟨-, address, grown, allocated, -, rfl⟩
  · exact roomy.mono (Nat.le_succ spare)
  · exact (roomy.kmalloc consistent allocated).2.congr rfl rfl fun _ => rfl

/-- Getting a disk page table takes a page at most. -/
theorem getDiskPageTable (roomy : Roomy state (spare + 1))
    (consistent : Consistent ghost state.view) {create : Bool} {pointer : TablePointer}
    (returned : getDiskPageTable env address create state = .ok (pointer, final)) :
    Roomy final spare := by
  rcases bind_observe_ok.mp returned with ⟨located, looked, continued⟩
  replace continued := bind_get_ok.mp continued
  rcases ite_ok.mp continued with ⟨-, absent⟩ | ⟨-, ended⟩
  · rcases ite_ok.mp absent with ⟨-, created⟩ | ⟨-, ended⟩
    · rcases createDiskPageTable_cases consistent created with
        ⟨-, allocated⟩ | ⟨table, frame, after, grown, -, allocated, -, -, rfl⟩
      · exact (roomy.kmalloc consistent allocated).2
      · exact (roomy.kmalloc consistent allocated).2.congr rfl rfl fun _ => rfl
    · rcases pure_ok.mp ended with ⟨-, rfl⟩
      exact roomy.mono (Nat.le_succ spare)
  · rcases pure_ok.mp ended with ⟨-, rfl⟩
    exact roomy.mono (Nat.le_succ spare)

theorem ofWord (roomy : Roomy state spare) (step : WordStep state final) :
    Roomy final spare := by
  rcases step.only with ⟨_, _, _, _, _, rfl⟩
  exact roomy.congr rfl rfl fun _ => rfl

/-- Adding a page takes a page for the directory and one for a table at most. -/
theorem pfAddFrame (roomy : Roomy state (spare + 2))
    (consistent : Consistent ghost state.view) {free : List Nat} (file : PageFile free state)
    {result : Option Word} (user : address < userTop)
    (returned : pfAddFrame env address state = .ok (result, final)) : Roomy final spare := by
  rcases ite_ok.mp returned with ⟨high, -⟩ | ⟨-, opened⟩
  · exact absurd high (by grind)
  rcases bind_ok.mp opened with ⟨_, entered, opening, continued⟩
  rcases getDiskPageDirectory_ok consistent file opening with ⟨middle, first, directory⟩
  rcases bind_ok.mp continued with ⟨pointer, between, locating, allocating⟩
  rcases getDiskPageTable_ok first.consistent first.file user directory locating with
    ⟨after, second, rfl | found⟩
  · rcases bind_observe_ok.mp allocating with ⟨_, loaded, -⟩
    cases loaded
  have written := PageTrace.allocatePageFrame_word second.consistent second.file found allocating
  have opened : Roomy entered (spare + 1) :=
    roomy.getDiskPageDirectory consistent file.layout opening
  exact (opened.getDiskPageTable first.consistent locating).ofWord written

theorem pfAddEnvPage (roomy : Roomy state (spare + 2))
    (consistent : Consistent ghost state.view) {free : List Nat} (file : PageFile free state)
    {page : Nat → Word} {code : PageFileCode} (user : address < userTop)
    (returned : pfAddEnvPage env address page state = .ok (code, final)) :
    Roomy final spare := by
  rcases bind_ok.mp returned with ⟨result, added, adding, continued⟩
  have first := roomy.pfAddFrame consistent file user adding
  cases result with
  | none =>
      rcases pure_ok.mp continued with ⟨-, rfl⟩
      exact first
  | some dfn =>
      replace continued := bind_modify_ok.mp continued
      rcases pure_ok.mp continued with ⟨-, rfl⟩
      exact first.congr rfl rfl fun _ => rfl

/-- The tables are found as long as no page above the next-fit pointer is mapped. -/
theorem tablesFound (roomy : Roomy state spare) (consistent : Consistent ghost state.view)
    (serviceable : Serviceable state) : TablesFound state := by
  have walkable : Walkable state := ⟨serviceable, roomy.above⟩
  intro table nonzero
  rcases walkable.table_located consistent nonzero with ⟨pointer, located, -, positive, -⟩
  exact ⟨pointer, positive, located⟩

end FosKernel.Roomy
