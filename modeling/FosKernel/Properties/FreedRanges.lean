import FosKernel.Properties.KernelHeap
import FosKernel.Refinement.PageFileProgress
import FosKernel.Refinement.UserMemory
import FosKernel.System

/-! # Ranges released by `freeMem`

After each page `freeMem` removes the page table if it has no present entry left. The entry
of an evicted page is not present, although it refers to the frame in which the page is
buffered.
-/

namespace FosKernel.FreedRanges

open Kernel
open KernelHeap (sample_cleared)

/-- The pages of `[address, address + size)`. -/
def InRange (address size page : Nat) : Prop :=
  ppn address ≤ page ∧ page * 4096 < address + size

/-- A page table with a page of the range. -/
def Touched (address size index : Nat) : Prop :=
  ∃ page, InRange address size page ∧ page / 1024 = index

/-- The pages of the range are gone, with every page table of theirs that no other page
refers from, and everything else is as it was. -/
structure FreesExactly (state : State) (env address size : Nat) (final : State) : Prop where
  file : ∀ page, InRange address size page → final.diskEntry env page = 0
  workingSet : ∀ page, InRange address size page → ¬final.view.Resident env page
  entry : ∀ page, InRange address size page → final.view.entry (.user env page) = 0
  tables : ∀ index, Touched address size index → state.pageDirectory (.env env) index ≠ 0 →
    (final.pageDirectory (.env env) index = 0 ↔
      ∀ page, page / 1024 = index → ¬InRange address size page →
        state.view.entry (.user env page) = 0)
  otherTables : ∀ owner index, ¬(owner = .env env ∧ Touched address size index) →
    final.pageDirectory owner index = state.pageDirectory owner index
  outside : ∀ someEnv page, ¬(someEnv = env ∧ InRange address size page) →
    final.diskEntry someEnv page = state.diskEntry someEnv page ∧
    (final.view.Resident someEnv page ↔ state.view.Resident someEnv page) ∧
    final.view.entry (.user someEnv page) = state.view.entry (.user someEnv page)

/-- A page table that keeps the entry of a page outside the range keeps a present one. -/
def NoneStranded (state : State) (env address size : Nat) : Prop :=
  ∀ page, ¬InRange address size page → Touched address size (page / 1024) →
    state.view.entry (.user env page) ≠ 0 →
      ∃ other, other / 1024 = page / 1024 ∧ ¬InRange address size other ∧
        hasPerm (state.view.entry (.user env other)) permPresent = true

section Range

variable {ghost : Ghost} {state final : State} {env address size : Nat}

/-- The addresses that the loop of `freeMem` passes to its body. -/
def rangeAddresses (address size : Nat) : List Nat :=
  (pageRange 0 size).map fun offset => (address + offset) % 2 ^ 32

theorem forEach_map {α β : Type} (body : β → Kernel Unit) (change : α → β) (values : List α) :
    Kernel.forEach (fun value => body (change value)) values =
      Kernel.forEach body (values.map change) := by
  induction values with
  | nil => rfl
  | cons value values induction =>
      simp only [Kernel.forEach, List.map_cons, induction]

theorem mem_rangeAddresses (upper : address + size ≤ userHeapMax) {found : Nat} :
    found ∈ rangeAddresses address size ↔
      ∃ index, found = address + index * 4096 ∧ index * 4096 < size := by
  simp only [userHeapMax] at upper
  constructor
  · intro member
    rcases List.mem_map.mp member with ⟨offset, inside, rfl⟩
    rcases mem_pageRange.mp inside with ⟨index, rfl, below⟩
    exact ⟨index, by omega, by omega⟩
  · rintro ⟨index, rfl, below⟩
    refine List.mem_map.mpr ⟨index * 4096, mem_pageRange.mpr ⟨index, by omega, below⟩, ?_⟩
    omega

theorem mem_rangePages (aligned : address % 4096 = 0) (upper : address + size ≤ userHeapMax)
    {page : Nat} :
    page ∈ (rangeAddresses address size).map ppn ↔ InRange address size page := by
  unfold InRange ppn
  constructor
  · intro member
    rcases List.mem_map.mp member with ⟨found, inside, rfl⟩
    rcases (mem_rangeAddresses upper).mp inside with ⟨index, rfl, below⟩
    omega
  · rintro ⟨above, below⟩
    rcases Nat.exists_eq_add_of_le above with ⟨index, rfl⟩
    have position : (address / 4096 + index) * 4096 = address + index * 4096 := by
      rw [Nat.add_mul, Nat.div_mul_cancel (Nat.dvd_of_mod_eq_zero aligned)]
    rw [position] at below
    refine List.mem_map.mpr ⟨(address / 4096 + index) * 4096, ?_,
      Nat.mul_div_cancel _ (by decide)⟩
    exact (mem_rangeAddresses upper).mpr ⟨index, position, Nat.lt_of_add_lt_add_left below⟩

theorem freeMem_freed (releasing : Releasing ghost env state) (aligned : address % 4096 = 0)
    (lower : userHeapStart ≤ address) (upper : address + size ≤ userHeapMax)
    (returned : freeMem env address size state = .ok ((), final)) :
    Freed state env ((rangeAddresses address size).map ppn) final := by
  rcases bind_ok.mp returned with ⟨_, middle, looped, ended⟩
  rcases ite_ok.mp ended with ⟨large, -⟩ | ⟨-, kept⟩
  · simp only [userHeapMax] at upper
    omega
  rcases pure_ok.mp kept with ⟨-, rfl⟩
  rw [forEach_map] at looped
  apply freeMemPages_ok releasing _ looped
  intro found member
  rcases (mem_rangeAddresses upper).mp member with ⟨index, rfl, below⟩
  simp only [userHeapStart, userHeapMax, userTop] at *
  omega

theorem unused_iff {pages : List Nat} (mem : ∀ page, page ∈ pages ↔ InRange address size page)
    (index : Nat) : Unused state env pages index ↔ Touched address size index ∧
      ∀ page, page / 1024 = index → ¬InRange address size page →
        hasPerm (state.view.entry (.user env page)) permPresent = false := by
  unfold Unused Touched
  simp only [mem]
  constructor
  · rintro ⟨touched, all⟩
    refine ⟨touched, fun page inside outside => ?_⟩
    by_contra present
    exact outside (all page inside (by simpa using present))
  · rintro ⟨touched, none⟩
    refine ⟨touched, fun page inside present => ?_⟩
    by_contra outside
    rw [none page inside outside] at present
    cases present

end Range

/-! ## From boot -/

/-- Two pages of the user heap are touched. -/
def evictCalls : List Call :=
  [.envCreate 0 sampleProgram 1, .schedule 0, .sysAllocateMem 0x80000000 0x2000,
    .fault 0x80000000, .fault 0x80000000, .fault 0x80001000]

end FosKernel.FreedRanges
